import AcharyaOS.Foundation.Field
import AcharyaOS.Ipv4.Code

/-!
# Addresses in dotted form

What `ipv4_from_str` accepts is four numbers up to 255 with dots between them.  It reads its
string up to the terminator at most, and its numbers stay small.
-/

namespace AcharyaOS.Ipv4

open Foundation

/-- Decimal digits for a number that an octet has room for. -/
structure IsOctet (digits : List UInt8) (value : Nat) : Prop where
  ne_nil : digits ≠ []
  decimal : ∀ c ∈ digits, isDecimal c = true
  value_eq : decimalValue digits = value
  value_le : value ≤ 255

/-- The text is four octets with the values given and single dots between them. -/
def Dotted (text : List UInt8) (a b c d : Nat) : Prop :=
  ∃ p q r t, text = p ++ '.'.toUInt8 :: (q ++ '.'.toUInt8 :: (r ++ '.'.toUInt8 :: t)) ∧
    IsOctet p a ∧ IsOctet q b ∧ IsOctet r c ∧ IsOctet t d

/-! ## One octet -/

theorem toNat_ofNat_octet {n : Nat} (h : n ≤ 255) : (UInt32.ofNat n).toNat = n := by
  rw [UInt32.toNat_ofNat']
  exact Nat.mod_eq_of_lt (by omega)

theorem octetStep_eq {n : Nat} (h : n ≤ 255) {c : UInt8} (hc : isDecimal c = true) :
    octetStep (UInt32.ofNat n) c = some (UInt32.ofNat (n * 10 + (c.toNat - 48))) := by
  obtain ⟨hdigit, -, hle⟩ := isDecimal_spec hc
  have hn := toNat_ofNat_octet h
  have hfits : (UInt32.ofNat n).toNat * 10 + (c - '0'.toUInt8).toNat < 2 ^ 32 := by
    rw [hn, hdigit]
    omega
  unfold octetStep
  rw [if_pos hfits]
  congr 1
  apply UInt32.toNat_inj.mp
  rw [UInt32.toNat_add, UInt32.toNat_mul, hn, UInt8.toNat_toUInt32, hdigit, UInt32.toNat_ofNat']
  exact Nat.mod_add_mod _ _ _

theorem parseOctetLoop_spec (memory : List UInt8) (h : 0 ∈ memory) : ∀ n k, n ≤ 255 →
    ∃ rest, parseOctetLoop (UInt32.ofNat n) k memory =
        some (if (k = 0 ∧ memory.takeWhile isDecimal = []) ∨
            255 < (memory.takeWhile isDecimal).foldl (fun n c => n * 10 + (c.toNat - 48)) n then none
          else some (UInt32.ofNat ((memory.takeWhile isDecimal).foldl
            (fun n c => n * 10 + (c.toNat - 48)) n)), rest) ∧
      ((memory.takeWhile isDecimal).foldl (fun n c => n * 10 + (c.toNat - 48)) n ≤ 255 →
        rest = memory.dropWhile isDecimal) := by
  induction memory with
  | nil => exact absurd h List.not_mem_nil
  | cons c memory ih =>
      intro n k hn
      by_cases hc : isDecimal c = true
      · obtain ⟨-, hge, hle⟩ := isDecimal_spec hc
        have hrest : 0 ∈ memory := by
          refine (List.mem_cons.mp h).resolve_left fun hzero => ?_
          rw [← hzero] at hge
          exact absurd hge (by decide)
        have hnext : (UInt32.ofNat (n * 10 + (c.toNat - 48))).toNat = n * 10 + (c.toNat - 48) := by
          rw [UInt32.toNat_ofNat']
          exact Nat.mod_eq_of_lt (by omega)
        have hguard : UInt32.ofNat (n * 10 + (c.toNat - 48)) > 255 ↔
            255 < n * 10 + (c.toNat - 48) := by
          rw [gt_iff_lt, UInt32.lt_iff_toNat_lt, hnext]
          rfl
        rw [List.takeWhile_cons_of_pos hc, List.dropWhile_cons_of_pos hc, List.foldl_cons]
        unfold parseOctetLoop
        rw [if_pos hc, octetStep_eq hn hc]
        simp only [Option.bind_eq_bind, Option.bind_some, hguard]
        have hmore := le_foldl_decimal (memory.takeWhile isDecimal) (n * 10 + (c.toNat - 48))
        by_cases hlarge : 255 < n * 10 + (c.toNat - 48)
        · -- too large already, and with more digits too
          have htotal := Nat.lt_of_lt_of_le hlarge hmore
          refine ⟨memory, ?_, fun hsmall => absurd htotal (Nat.not_lt.mpr hsmall)⟩
          rw [if_pos hlarge, if_pos (.inr htotal)]
        · obtain ⟨rest, hloop, hrest'⟩ := ih hrest (n * 10 + (c.toNat - 48)) (k + 1)
            (Nat.not_lt.mp hlarge)
          refine ⟨rest, ?_, hrest'⟩
          rw [if_neg hlarge, hloop]
          simp only [Nat.succ_ne_zero, List.cons_ne_nil, and_false, false_and]
      · refine ⟨c :: memory, ?_, fun _ => (List.dropWhile_cons_of_neg hc).symm⟩
        have hsmall : ¬ 255 < n := Nat.not_lt.mpr hn
        rw [List.takeWhile_cons_of_neg hc, List.foldl_nil]
        unfold parseOctetLoop
        rw [if_neg hc]
        by_cases hk : k = 0
        · rw [if_pos hk, if_pos (.inl ⟨hk, rfl⟩)]
        · rw [if_neg hk, if_neg (not_or.mpr ⟨fun h => hk h.1, hsmall⟩)]

section Octet

variable {p : List UInt8} {v : Nat} {c : UInt8}

theorem IsOctet.span (hp : IsOctet p v) (hc : isDecimal c = false) (m : List UInt8) :
    (p ++ c :: m).takeWhile isDecimal = p ∧ (p ++ c :: m).dropWhile isDecimal = c :: m := by
  have hneg : ¬ isDecimal c = true := by
    rw [hc]
    exact Bool.false_ne_true
  rw [List.takeWhile_append_of_pos hp.decimal, List.dropWhile_append_of_pos hp.decimal,
    List.takeWhile_cons_of_neg hneg, List.dropWhile_cons_of_neg hneg, List.append_nil]
  exact ⟨rfl, rfl⟩

theorem parseOctet_of_isOctet (hp : IsOctet p v) (hc : isDecimal c = false) {m : List UInt8}
    (hterm : 0 ∈ c :: m) : parseOctet (p ++ c :: m) = some (some (UInt32.ofNat v), c :: m) := by
  obtain ⟨htake, hdrop⟩ := hp.span hc m
  obtain ⟨rest, hloop, hrest⟩ := parseOctetLoop_spec (p ++ c :: m)
    (List.mem_append_right p hterm) 0 0 (Nat.zero_le _)
  have hvalue : p.foldl (fun n c => n * 10 + (c.toNat - 48)) 0 = v := hp.value_eq
  rw [htake, hvalue] at hloop hrest
  rw [hdrop] at hrest
  have hin : ¬ ((0 = 0 ∧ p = []) ∨ 255 < v) :=
    not_or.mpr ⟨fun hnil => hp.ne_nil hnil.2, Nat.not_lt.mpr hp.value_le⟩
  rw [if_neg hin, hrest hp.value_le] at hloop
  exact hloop

end Octet

theorem parseOctet_cases {memory : List UInt8} (h : 0 ∈ memory) :
    (∃ rest, parseOctet memory = some (none, rest)) ∨
      ∃ p v c m, IsOctet p v ∧ isDecimal c = false ∧ memory = p ++ c :: m ∧ 0 ∈ c :: m := by
  obtain ⟨rest, hloop, -⟩ := parseOctetLoop_spec memory h 0 0 (Nat.zero_le _)
  by_cases hfails : (0 = 0 ∧ memory.takeWhile isDecimal = []) ∨
      255 < (memory.takeWhile isDecimal).foldl (fun n c => n * 10 + (c.toNat - 48)) 0
  · rw [if_pos hfails] at hloop
    exact .inl ⟨rest, hloop⟩
  · obtain ⟨hne, hle⟩ := not_or.mp hfails
    have hdigits : ∀ d ∈ memory.takeWhile isDecimal, isDecimal d = true :=
      fun d hd => List.mem_takeWhile_imp hd
    have hsplit := memory.takeWhile_append_dropWhile (p := isDecimal)
    have hterm : 0 ∈ memory.dropWhile isDecimal := by
      rw [← hsplit] at h
      refine (List.mem_append.mp h).resolve_left fun hzero => ?_
      exact absurd (hdigits 0 hzero) (by decide)
    cases hdrop : memory.dropWhile isDecimal with
    | nil =>
        rw [hdrop] at hterm
        exact absurd hterm List.not_mem_nil
    | cons c m =>
        have hc : isDecimal c = false := by
          have hhead := List.head?_dropWhile_not isDecimal memory
          rw [hdrop] at hhead
          simpa using hhead
        rw [hdrop] at hsplit hterm
        exact .inr ⟨_, _, c, m, ⟨fun hnil => hne ⟨rfl, hnil⟩, hdigits, rfl, Nat.not_lt.mp hle⟩, hc,
          hsplit.symm, hterm⟩

/-! ## Four octets -/

theorem parseOctetDot_of_isOctet {p : List UInt8} {v : Nat} (hp : IsOctet p v) {m : List UInt8}
    (hterm : 0 ∈ m) :
    parseOctetDot (p ++ '.'.toUInt8 :: m) = some (some (UInt32.ofNat v, m)) := by
  have hdot : isDecimal '.'.toUInt8 = false := by decide
  unfold parseOctetDot
  rw [parseOctet_of_isOctet hp hdot (List.mem_cons_of_mem _ hterm)]
  rfl

theorem parseOctetDot_cases {memory : List UInt8} (h : 0 ∈ memory) :
    parseOctetDot memory = some none ∨
      ∃ p v m, IsOctet p v ∧ memory = p ++ '.'.toUInt8 :: m ∧ 0 ∈ m := by
  rcases parseOctet_cases h with ⟨rest, hfails⟩ | ⟨p, v, c, m, hp, hc, rfl, hterm⟩
  · left
    unfold parseOctetDot
    rw [hfails]
    rfl
  · by_cases hdot : c = '.'.toUInt8
    · subst hdot
      exact .inr ⟨p, v, m, hp, rfl, (List.mem_cons.mp hterm).resolve_left (by decide)⟩
    · left
      unfold parseOctetDot
      rw [parseOctet_of_isOctet hp hc hterm]
      exact if_neg hdot

/-- The address with the octets given. -/
def dottedAddress (a b c d : Nat) : UInt32 :=
  UInt32.ofNat a <<< 24 ||| UInt32.ofNat b <<< 16 ||| UInt32.ofNat c <<< 8 ||| UInt32.ofNat d

theorem ipv4FromStr_of_dotted {s : CString} {a b c d : Nat} (h : Dotted s.bytes a b c d) :
    ipv4FromStr (some (s.bytes ++ [0])) = some (dottedAddress a b c d) := by
  obtain ⟨p, q, r, t, htext, hp, hq, hr, ht⟩ := h
  have hmemory : s.bytes ++ [0] = p ++ '.'.toUInt8 :: (q ++ '.'.toUInt8 ::
      (r ++ '.'.toUInt8 :: (t ++ [0]))) := by
    rw [htext]
    simp
  have hterm : (0 : UInt8) ∈ t ++ [0] := List.mem_append_right t List.mem_cons_self
  have hterm' : (0 : UInt8) ∈ r ++ '.'.toUInt8 :: (t ++ [0]) :=
    List.mem_append_right r (List.mem_cons_of_mem _ hterm)
  have hterm'' : (0 : UInt8) ∈ q ++ '.'.toUInt8 :: (r ++ '.'.toUInt8 :: (t ++ [0])) :=
    List.mem_append_right q (List.mem_cons_of_mem _ hterm')
  have hzero : isDecimal 0 = false := by decide
  unfold ipv4FromStr
  simp only [hmemory, parseOctetDot_of_isOctet hp hterm'', parseOctetDot_of_isOctet hq hterm',
    parseOctetDot_of_isOctet hr hterm, parseOctet_of_isOctet ht hzero List.mem_cons_self,
    Option.bind_eq_bind, Option.bind_some]
  rfl

/-- Memory that the function takes apart without a failure holds four octets in front of its
first terminator. -/
theorem ipv4FromStr_cases {memory : List UInt8} (h : 0 ∈ memory) :
    ipv4FromStr (some memory) = some 0 ∨
      ∃ a b c d text rest, Dotted text a b c d ∧ memory = text ++ 0 :: rest := by
  rcases parseOctetDot_cases h with hfails | ⟨p, a, m, hp, rfl, hm⟩
  · left
    unfold ipv4FromStr
    simp only [hfails, Option.bind_eq_bind, Option.bind_some]
  rcases parseOctetDot_cases hm with hfails | ⟨q, b, m', hq, rfl, hm'⟩
  · left
    unfold ipv4FromStr
    simp only [parseOctetDot_of_isOctet hp hm, hfails, Option.bind_eq_bind, Option.bind_some]
  rcases parseOctetDot_cases hm' with hfails | ⟨r, c, m'', hr, rfl, hm''⟩
  · left
    unfold ipv4FromStr
    simp only [parseOctetDot_of_isOctet hp hm, parseOctetDot_of_isOctet hq hm', hfails,
      Option.bind_eq_bind, Option.bind_some]
  rcases parseOctet_cases hm'' with ⟨rest, hfails⟩ | ⟨t, d, last, rest, ht, hlast, rfl, hterm⟩
  · left
    unfold ipv4FromStr
    simp only [parseOctetDot_of_isOctet hp hm, parseOctetDot_of_isOctet hq hm',
      parseOctetDot_of_isOctet hr hm'', hfails, Option.bind_eq_bind, Option.bind_some]
  by_cases hzero : last = 0
  · subst hzero
    refine .inr ⟨a, b, c, d, _, rest, ⟨p, q, r, t, rfl, hp, hq, hr, ht⟩, ?_⟩
    simp
  · left
    unfold ipv4FromStr
    simp only [parseOctetDot_of_isOctet hp hm, parseOctetDot_of_isOctet hq hm',
      parseOctetDot_of_isOctet hr hm'', parseOctet_of_isOctet ht hlast hterm,
      Option.bind_eq_bind, Option.bind_some, ne_eq, hzero, not_false_eq_true, if_true]

/-- The address of a string in dotted form is that of its octets, and any other string has
the address 0; neither an access leaves the string nor does a number leave its 32 bits. -/
theorem ipv4FromStr_exact (s : CString) :
    (∀ a b c d, Dotted s.bytes a b c d →
        ipv4FromStr (some (s.bytes ++ [0])) = some (dottedAddress a b c d)) ∧
      ((∀ a b c d, ¬ Dotted s.bytes a b c d) →
        ipv4FromStr (some (s.bytes ++ [0])) = some 0) := by
  refine ⟨fun a b c d h => ipv4FromStr_of_dotted h, fun hnone => ?_⟩
  have hterm : (0 : UInt8) ∈ s.bytes ++ [0] := List.mem_append_right s.bytes List.mem_cons_self
  rcases ipv4FromStr_cases hterm with hzero | ⟨a, b, c, d, text, rest, hdotted, hmemory⟩
  · exact hzero
  · -- the terminator behind the last octet is that of the string
    have hno : 0 ∉ text := by
      obtain ⟨p, q, r, t, rfl, hp, hq, hr, ht⟩ := hdotted
      have hdigit : ∀ {p v}, IsOctet p v → (0 : UInt8) ∉ p := fun hp hmem =>
        absurd (hp.decimal 0 hmem) (by decide)
      have hdot : (0 : UInt8) ≠ '.'.toUInt8 := by decide
      simp [hdigit hp, hdigit hq, hdigit hr, hdigit ht, hdot]
    have htext := congrArg cText hmemory
    rw [cText_append_zero, cText_append_zero, cText_bytes, cText_of_zero_notMem hno] at htext
    rw [← htext] at hdotted
    exact absurd hdotted (hnone a b c d)

/-- `10.0.2.15` -/
def sampleAddress : CString := ⟨asciiText "10.0.2.15", by decide⟩

theorem ipv4FromStr_exact_sample :
    ipv4FromStr (some (sampleAddress.bytes ++ [0])) = some (dottedAddress 10 0 2 15) :=
  (ipv4FromStr_exact sampleAddress).1 10 0 2 15
    ⟨[49, 48], [48], [50], [49, 53], by decide, ⟨by decide, by decide, by decide, by decide⟩,
      ⟨by decide, by decide, by decide, by decide⟩, ⟨by decide, by decide, by decide, by decide⟩,
      ⟨by decide, by decide, by decide, by decide⟩⟩

end AcharyaOS.Ipv4
