import AcharyaOS.Fs.View

/-!
# Power loss during an update

The data sectors of an update lie behind every file the disk knows about, and
the table sector that makes them visible is written last.
-/

namespace AcharyaOS.Fs

open Foundation Disk Foundation.Run

def fsIssued (s : FsState) (c : Faults × FsCall) : List (Nat × Sector) :=
  (fsStep s c).ata.device.log.drop s.ata.device.log.length

/-- The disk when power is lost after the first `k` sector writes of a call. -/
def fsCrashImage (s : FsState) (c : Faults × FsCall) (k : Nat) : Nat → Sector :=
  applyWrites s.ata.device.content ((fsIssued s c).take k)

theorem fsIssued_of_wrote {s : FsState} {c : Faults × FsCall} {ws : List (Nat × Sector)}
    (h : s.ata.Wrote (fsStep s c).ata ws) : fsIssued s c = ws := by
  rw [fsIssued, h.device.log_eq, List.drop_left]

/-- The data sectors of a plan hold no file of the table a mount would load. -/
theorem fsBootView_of_shadow {s : FsState} (h : FsSynced s) {c : FsCall} {p : FsPlan}
    (hplan : fsPlan s c = some p) (image : Nat → Sector)
    (himage : ∀ a, (∀ w ∈ p.shadow, w.1 ≠ a) → image a = s.ata.device.content a) :
    fsBootView s.ata.device.capacity image =
      fsBootView s.ata.device.capacity s.ata.device.content := by
  have hshadow := (fsPlan_inv hplan h.table h.data_start).2
  have hmeta : ∀ a, a < fsDataLba.toNat → image a = s.ata.device.content a := by
    intro a ha
    apply himage
    intro w hw
    have hle := (hshadow w hw).1
    omega
  apply fsBootView_congr h.room (fsFormatted_of_superblock h.superblock)
  · exact hmeta _ (by decide)
  · exact hmeta _ (by decide)
  · intro i hi j hj
    have heq := (fsMountTable_used h.table_eq hi).2
    rw [heq] at hi hj ⊢
    apply himage
    intro w hw
    have hstop := h.stop_le i hi
    have hle := (hshadow w hw).2 i _ (fsExtents_of_lt hi (by omega))
    rw [Extent.stop_mk] at hle
    omega

/-- Whenever power is lost during an update, the next boot shows the files as they
were before the update or as the whole update leaves them. -/
theorem fsBootView_of_crash {s : FsState} (h : FsSuccessful s) (f : Faults) {c : FsCall}
    (hc : c ≠ .init) (k : Nat) :
    fsBootView s.ata.device.capacity (fsCrashImage s (f, c) k) =
        fsBootView s.ata.device.capacity s.ata.device.content ∨
      fsBootView s.ata.device.capacity (fsCrashImage s (f, c) k) =
        fsBootView s.ata.device.capacity (fsStep s (f, c)).ata.device.content := by
  rcases fsExec_cases s f hc with ⟨-, heq⟩ | ⟨p, ws, hplan, hfollows⟩
  · left
    have hissued : fsIssued s (f, c) = [] := by
      apply fsIssued_of_wrote
      rw [h.synced.step_of_refused f heq]
      exact .refl _
    rw [fsCrashImage, hissued, List.take_nil, applyWrites_nil]
  · rw [fsCrashImage, fsIssued_of_wrote hfollows.wrote]
    have hcontent : (fsStep s (f, c)).ata.device.content =
        applyWrites s.ata.device.content ws := hfollows.wrote.device.content_eq
    rw [hcontent]
    exact crash_before_or_after (fsBootView s.ata.device.capacity) s.ata.device.content
      (fsBootView_of_shadow h.synced hplan) hfollows.issued k

theorem fsBootView_of_crash_oneFile :
    fsBootView fsOneFile.ata.device.capacity
          (fsCrashImage fsOneFile (.none, .writeFile (some fsNameA) (some [3])) 1) =
        fsBootView fsOneFile.ata.device.capacity fsOneFile.ata.device.content ∨
      fsBootView fsOneFile.ata.device.capacity
          (fsCrashImage fsOneFile (.none, .writeFile (some fsNameA) (some [3])) 1) =
        fsBootView fsOneFile.ata.device.capacity
          (fsStep fsOneFile
            (.none, .writeFile (some fsNameA) (some [3]))).ata.device.content :=
  fsBootView_of_crash fsSuccessful_oneFile .none (by simp) 1

end AcharyaOS.Fs
