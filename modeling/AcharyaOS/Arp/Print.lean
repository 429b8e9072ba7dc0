import AcharyaOS.Arp.Code
import AcharyaOS.Kio.Format

/-!
# Printing the ARP table

The formats of `arp_print_table` are written for a `kprintf` that knows `%u` and `%02x`.
-/

namespace AcharyaOS.Arp

open Foundation Kio

def arpEntryFormat : String := "  %u.%u.%u.%u -> %02x:%02x:%02x:%02x:%02x:%02x%s\n"

/-- The four octets of an address, as arguments. -/
def octetArgs (ip : UInt32) : List FormatArg :=
  [.word ((ip >>> 24) &&& 0xff), .word ((ip >>> 16) &&& 0xff), .word ((ip >>> 8) &&& 0xff),
    .word (ip &&& 0xff)]

def arpEntryArgs (e : ArpEntry) : List FormatArg :=
  octetArgs e.ip ++
    [.word (e.mac 0).toUInt32, .word (e.mac 1).toUInt32, .word (e.mac 2).toUInt32,
      .word (e.mac 3).toUInt32, .word (e.mac 4).toUInt32, .word (e.mac 5).toUInt32,
      .str (.read (asciiText (if e.permanent then " (static)" else "")))]

/-- The calls of `kprintf` in `arp_print_table`. -/
def arpPrintCalls (s : ArpState) : List (String × List FormatArg) :=
  ("ARP table:\n", []) ::
    ((List.finRange arpCacheMax).filter fun i => (s.cache i).valid).map fun i =>
      (arpEntryFormat, arpEntryArgs (s.cache i))

/-- What `arp_print_table` prints; `none` is undefined behaviour. -/
def arpPrintTable (s : ArpState) : Option (List UInt8) := kprintfAll (arpPrintCalls s)

/-! ## The table as text -/

/-- An address in dotted decimal. -/
def dottedText (ip : UInt32) : List UInt8 :=
  numeral 10 (ip.toNat / 2 ^ 24) ++ '.'.toUInt8 :: numeral 10 (ip.toNat / 2 ^ 16 % 256) ++
    '.'.toUInt8 :: numeral 10 (ip.toNat / 2 ^ 8 % 256) ++ '.'.toUInt8 :: numeral 10 (ip.toNat % 256)

/-- A byte as two hexadecimal digits. -/
def hexByteText (b : UInt8) : List UInt8 :=
  [(b.toNat / 16).digitChar.toUInt8, (b.toNat % 16).digitChar.toUInt8]

def macText (mac : Mac) : List UInt8 :=
  hexByteText (mac 0) ++ ':'.toUInt8 :: hexByteText (mac 1) ++ ':'.toUInt8 :: hexByteText (mac 2) ++
    ':'.toUInt8 :: hexByteText (mac 3) ++ ':'.toUInt8 :: hexByteText (mac 4) ++
    ':'.toUInt8 :: hexByteText (mac 5)

def arpEntryText (e : ArpEntry) : List UInt8 :=
  asciiText "  " ++ dottedText e.ip ++ asciiText " -> " ++ macText e.mac ++
    asciiText (if e.permanent then " (static)" else "") ++ asciiText "\n"

/-- The table: a heading, and a line for each valid entry. -/
def arpTableText (s : ArpState) : List UInt8 :=
  asciiText "ARP table:\n" ++
    ((List.finRange arpCacheMax).filter fun i => (s.cache i).valid).flatMap fun i =>
      arpEntryText (s.cache i)

example : arpEntryText ⟨localIp, broadcastLikeLocal, 0, true, true⟩ =
    asciiText "  192.168.1.100 -> 52:54:00:12:34:56 (static)\n" := by decide

/-! ## What is printed -/

/-- `%u` and `%0` take no argument, so that `%s` takes the first octet for a string. -/
theorem kprintfLit_arpEntry (e : ArpEntry) :
    kprintfLit arpEntryFormat (arpEntryArgs e) = none :=
  kprintfLit_eq_none rfl fun h => h

theorem filter_valid_eq_nil_iff {n : Nat} {valid : Fin n → Bool} :
    (List.finRange n).filter valid = [] ↔ ∀ i, valid i = false := by
  simp [List.filter_eq_nil_iff]

/-- `arp_print_table` prints the table when there is nothing in it, and is undefined when
there is. -/
theorem arpPrintTable_eq_iff (s : ArpState) :
    arpPrintTable s = some (arpTableText s) ↔ ∀ i, (s.cache i).valid = false := by
  rw [← filter_valid_eq_nil_iff]
  unfold arpPrintTable arpPrintCalls arpTableText
  cases h : (List.finRange arpCacheMax).filter fun i => (s.cache i).valid with
  | nil =>
    have hheading : kprintfAll [("ARP table:\n", [])] = some (asciiText "ARP table:\n") := by
      decide +kernel
    exact iff_of_true hheading rfl
  | cons i rest =>
    refine iff_of_false (fun hprint => ?_) (List.cons_ne_nil i rest)
    have hnone : kprintfAll (("ARP table:\n", []) ::
        (i :: rest).map fun i => (arpEntryFormat, arpEntryArgs (s.cache i))) = none := by
      apply kprintfAll_eq_none
      exact ⟨_, List.mem_cons_of_mem _ List.mem_cons_self, kprintfLit_arpEntry (s.cache i)⟩
    rw [hnone] at hprint
    cases hprint

end AcharyaOS.Arp
