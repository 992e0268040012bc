import CellTx.Failure
import Mathlib.Algebra.GroupWithZero.Nat
import Mathlib.Data.List.DropRight

/-!
# Amounts and their grammar

What can be read as an amount, and as which: the texts of a grammar (`Amount.Numeral`,
`Amount.Written`), and no others (specification, section 14). A numeral is digits, as many as there
are leading zeros; a CKB amount is a numeral, and after a point one to eight digits more.

Results:
* `readCapacity_eq_ok_iff`, `readTokens_eq_ok_iff`: a text is read exactly when the grammar gives it
  the amount.
* `written_writeFull`, `written_writeShort`: the two forms in which an amount of shannons is usually
  written, with all places and with none too many.
* `Amount.readings_exact`: both readers, for every text, and the two forms.

Out of scope: which of several errors a text is refused with.
-/

namespace CellTx.Amount

/-! ## The grammar -/

/-- One or more digits of ASCII, and the number that they denote. -/
inductive Numeral : List Char → Nat → Prop
  | digit {c : Char} (h : c.isDigit = true) : Numeral [c] (c.toNat - '0'.toNat)
  | snoc {cs : List Char} {n : Nat} {c : Char} (init : Numeral cs n) (h : c.isDigit = true) :
      Numeral (cs ++ [c]) (10 * n + (c.toNat - '0'.toNat))

/-- A CKB amount, and the shannons that it denotes. -/
inductive Written : List Char → Nat → Prop
  | whole {w : List Char} {n : Nat} (ckb : Numeral w n) : Written w (n * 10 ^ 8)
  | fraction {w f : List Char} {n m : Nat} (ckb : Numeral w n) (parts : Numeral f m)
      (places : f.length ≤ 8) : Written (w ++ '.' :: f) (n * 10 ^ 8 + m * 10 ^ (8 - f.length))

/-! ## Numerals -/

section Digits

variable {cs : List Char} {n : Nat}

theorem digitsValue_nil : digitsValue [] = 0 := rfl

theorem digitsValue_concat (cs : List Char) (c : Char) :
    digitsValue (cs ++ [c]) = 10 * digitsValue cs + (c.toNat - '0'.toNat) := by
  rw [digitsValue, List.foldl_concat]
  rfl

/-- Each zero after a numeral makes it ten times as large. -/
theorem digitsValue_append_zeros (cs : List Char) (k : Nat) :
    digitsValue (cs ++ List.replicate k '0') = digitsValue cs * 10 ^ k := by
  induction k with
  | zero => rw [List.replicate_zero, List.append_nil, Nat.pow_zero, Nat.mul_one]
  | succ k ih =>
    rw [List.replicate_succ', ← List.append_assoc, digitsValue_concat, ih, Nat.pow_succ,
      Nat.sub_self, Nat.add_zero, Nat.mul_comm, Nat.mul_assoc]

theorem isNumeral_iff : isNumeral cs = true ↔ cs ≠ [] ∧ ∀ c ∈ cs, c.isDigit = true := by
  rw [isNumeral, Bool.and_eq_true, Bool.not_eq_true', List.isEmpty_eq_false_iff, List.all_eq_true]

theorem numeral_iff : Numeral cs n ↔ isNumeral cs = true ∧ digitsValue cs = n := by
  constructor
  · intro h
    induction h with
    | @digit c h =>
      refine ⟨isNumeral_iff.mpr ⟨List.cons_ne_nil _ _, fun x hx => ?_⟩, ?_⟩
      · exact List.mem_singleton.mp hx ▸ h
      · rw [← List.nil_append [c], digitsValue_concat, digitsValue_nil, Nat.mul_zero, Nat.zero_add]
    | @snoc cs n c init h ih =>
      obtain ⟨hdigits, hvalue⟩ := ih
      refine ⟨isNumeral_iff.mpr ⟨List.concat_ne_nil c cs, fun x hx => ?_⟩, ?_⟩
      · rcases List.mem_append.mp hx with hx | hx
        · exact (isNumeral_iff.mp hdigits).2 x hx
        · exact List.mem_singleton.mp hx ▸ h
      · rw [digitsValue_concat, hvalue]
  · rintro ⟨hdigits, rfl⟩
    induction cs using List.reverseRecOn with
    | nil => exact absurd rfl (isNumeral_iff.mp hdigits).1
    | append_singleton cs c ih =>
      have hall := (isNumeral_iff.mp hdigits).2
      have hc : c.isDigit = true := hall c (List.mem_append_right _ (List.mem_singleton_self c))
      rw [digitsValue_concat]
      by_cases hcs : cs = []
      · rw [hcs, digitsValue_nil, Nat.mul_zero, Nat.zero_add]
        exact .digit hc
      · exact .snoc (ih (isNumeral_iff.mpr
          ⟨hcs, fun x hx => hall x (List.mem_append_left _ hx)⟩)) hc

/-- A point is no digit. -/
theorem Numeral.not_mem_point (h : Numeral cs n) : '.' ∉ cs :=
  fun hmem => Bool.false_ne_true ((isNumeral_iff.mp (numeral_iff.mp h).1).2 '.' hmem)

end Digits

/-! ## The point -/

section Point

variable {cs w f : List Char}

theorem splitPoint_eq_none_iff : splitPoint cs = (w, none) ↔ cs = w ∧ '.' ∉ w := by
  unfold splitPoint
  rw [Prod.mk.injEq]
  constructor
  · rintro ⟨htake, hdrop⟩
    split at hdrop
    · rename_i hnil
      have hall := List.dropWhile_eq_nil_iff.mp hnil
      rw [List.takeWhile_eq_self_iff.mpr hall] at htake
      exact ⟨htake, fun hmem => by simpa using hall '.' (htake ▸ hmem)⟩
    · exact nomatch hdrop
  · rintro ⟨rfl, hpoint⟩
    have hall : ∀ c ∈ cs, (c != '.') = true := fun c hc => by
      rw [bne_iff_ne]
      exact fun heq => hpoint (heq ▸ hc)
    rw [List.takeWhile_eq_self_iff.mpr hall, List.dropWhile_eq_nil_iff.mpr hall]
    exact ⟨rfl, rfl⟩

theorem splitPoint_eq_some_iff :
    splitPoint cs = (w, some f) ↔ cs = w ++ '.' :: f ∧ '.' ∉ w := by
  unfold splitPoint
  rw [Prod.mk.injEq]
  constructor
  · rintro ⟨rfl, hdrop⟩
    split at hdrop
    · exact nomatch hdrop
    · rename_i c rest hcons
      obtain rfl := Option.some.inj hdrop
      -- the text goes on with the first character that is a point
      have hc := List.head_dropWhile_not (p := (· != '.')) (l := cs)
        (by rw [hcons]; exact List.cons_ne_nil _ _)
      simp only [hcons, List.head_cons, bne_eq_false_iff_eq] at hc
      refine ⟨?_, fun hmem => by simpa using List.mem_takeWhile_imp hmem⟩
      rw [hc] at hcons
      rw [← hcons, List.takeWhile_append_dropWhile]
  · rintro ⟨rfl, hpoint⟩
    have hall : ∀ c ∈ w, (c != '.') = true := fun c hc => by
      rw [bne_iff_ne]
      exact fun heq => hpoint (heq ▸ hc)
    rw [List.takeWhile_append_of_pos hall, List.dropWhile_append_of_pos hall,
      List.takeWhile_cons_of_neg (by simp), List.dropWhile_cons_of_neg (by simp),
      List.append_nil]
    exact ⟨rfl, rfl⟩

end Point

/-! ## Reading -/

variable {input : String} {c : Capacity}

/-- What is read is the whole part and the fraction, filled up to eight places. -/
theorem readCapacity_of_split {w : List Char} {f : Option (List Char)}
    (hsplit : splitPoint input.toList = (w, f)) :
    readCapacity input = .ok c ↔ isNumeral w = true ∧ f.all isNumeral = true ∧
      (f.getD []).length ≤ places ∧ c.toNat = digitsValue w * Capacity.perCkb +
        digitsValue (f.getD []) * 10 ^ (places - (f.getD []).length) := by
  have hsize := Capacity.toNat_lt c
  unfold readCapacity
  rw [hsplit]
  dsimp only
  rw [digitsValue_append_zeros]
  by_cases hshape : (isNumeral w && f.all isNumeral) = true
  · rw [if_pos hshape]
    rw [Bool.and_eq_true] at hshape
    by_cases hplaces : places < (f.getD []).length
    · rw [if_pos hplaces]
      exact iff_of_false nofun fun h => Nat.not_le_of_lt hplaces h.2.2.1
    rw [if_neg hplaces]
    by_cases hwhole : UInt64.size ≤ digitsValue w
    · rw [if_pos hwhole]
      refine iff_of_false nofun fun h => ?_
      have hvalue := h.2.2.2
      have hpos : 0 < Capacity.perCkb := by decide
      have hmul := Nat.le_mul_of_pos_right (digitsValue w) hpos
      omega
    rw [if_neg hwhole]
    constructor
    · intro h
      split at h
      · rename_i c' hc'
        obtain rfl := Except.ok.inj h
        exact ⟨hshape.1, hshape.2, Nat.le_of_not_lt hplaces,
          Capacity.ofNat?_eq_some_iff.mp hc'⟩
      · exact nomatch h
    · rintro ⟨-, -, -, hvalue⟩
      rw [Capacity.ofNat?_eq_some_iff.mpr hvalue]
  · rw [if_neg hshape]
    refine iff_of_false nofun fun h => hshape ?_
    rw [h.1, h.2.1]
    rfl

/-- A text without a point is read when it is a numeral. -/
theorem readCapacity_eq_ok_iff_of_none {w : List Char}
    (hsplit : splitPoint input.toList = (w, none)) :
    readCapacity input = .ok c ↔ isNumeral w = true ∧ c.toNat = digitsValue w * 10 ^ 8 := by
  have hperCkb : Capacity.perCkb = 10 ^ 8 := by decide
  rw [readCapacity_of_split hsplit, hperCkb, Option.getD_none, digitsValue_nil, Nat.zero_mul,
    Nat.add_zero]
  exact and_congr_right fun _ => ⟨fun h => h.2.2, fun h => ⟨rfl, Nat.zero_le _, h⟩⟩

/-- A text with a point is read when there are numerals on both sides, the second a short one. -/
theorem readCapacity_eq_ok_iff_of_some {w f : List Char}
    (hsplit : splitPoint input.toList = (w, some f)) :
    readCapacity input = .ok c ↔ isNumeral w = true ∧ isNumeral f = true ∧ f.length ≤ 8 ∧
      c.toNat = digitsValue w * 10 ^ 8 + digitsValue f * 10 ^ (8 - f.length) := by
  have hperCkb : Capacity.perCkb = 10 ^ 8 := by decide
  have hplaces : places = 8 := rfl
  rw [readCapacity_of_split hsplit, hperCkb, hplaces, Option.getD_some, Option.all_some]

/-- A text is read as a CKB amount exactly when the grammar gives it that amount. -/
theorem readCapacity_eq_ok_iff : readCapacity input = .ok c ↔ Written input.toList c.toNat := by
  constructor
  · intro h
    rcases hsplit : splitPoint input.toList with ⟨w, _ | f⟩
    · obtain ⟨hw, hvalue⟩ := (readCapacity_eq_ok_iff_of_none hsplit).mp h
      rw [(splitPoint_eq_none_iff.mp hsplit).1, hvalue]
      exact .whole (numeral_iff.mpr ⟨hw, rfl⟩)
    · obtain ⟨hw, hf, hplaces, hvalue⟩ := (readCapacity_eq_ok_iff_of_some hsplit).mp h
      rw [(splitPoint_eq_some_iff.mp hsplit).1, hvalue]
      exact .fraction (numeral_iff.mpr ⟨hw, rfl⟩) (numeral_iff.mpr ⟨hf, rfl⟩) hplaces
  · generalize hcs : input.toList = cs
    generalize hv : c.toNat = v
    intro h
    cases h with
    | whole ckb =>
      have hsplit := splitPoint_eq_none_iff.mpr ⟨hcs, ckb.not_mem_point⟩
      obtain ⟨hw, rfl⟩ := numeral_iff.mp ckb
      exact (readCapacity_eq_ok_iff_of_none hsplit).mpr ⟨hw, hv⟩
    | fraction ckb parts places =>
      have hsplit := splitPoint_eq_some_iff.mpr ⟨hcs, ckb.not_mem_point⟩
      obtain ⟨hw, rfl⟩ := numeral_iff.mp ckb
      obtain ⟨hf, rfl⟩ := numeral_iff.mp parts
      exact (readCapacity_eq_ok_iff_of_some hsplit).mpr ⟨hw, hf, places, hv⟩

/-- A text is read as a token amount exactly when it is a numeral for it. -/
theorem readTokens_eq_ok_iff {t : TokenAmount} :
    readTokens input = .ok t ↔ Numeral input.toList t.toNat := by
  rw [numeral_iff]
  unfold readTokens
  by_cases hshape : isNumeral input.toList = true
  · rw [if_pos hshape]
    constructor
    · intro h
      split at h
      · rename_i t' ht'
        obtain rfl := Except.ok.inj h
        exact ⟨hshape, (TokenAmount.ofNat?_eq_some_iff.mp ht').symm⟩
      · exact nomatch h
    · rintro ⟨-, hvalue⟩
      rw [TokenAmount.ofNat?_eq_some_iff.mpr hvalue.symm]
  · rw [if_neg hshape]
    exact iff_of_false nofun fun h => hshape h.1

/-! ## Writing -/

/-- The last `k` decimal digits of a number. -/
def lastDigits : Nat → Nat → List Char
  | 0, _ => []
  | k + 1, n => lastDigits k (n / 10) ++ [(n % 10).digitChar]

/-- Whole CKB, a point, and eight digits for the rest. -/
def writeFull (c : Capacity) : String :=
  String.ofList (Nat.toDigits 10 (c.toNat / 10 ^ 8) ++ '.' :: lastDigits 8 c.toNat)

/-- The digits after the point, without the zeros at their end. -/
def shortFraction (c : Capacity) : List Char := (lastDigits 8 c.toNat).rdropWhile (· == '0')

/-- Whole CKB and, where there is a rest, a point and its digits without the zeros at their end. -/
def writeShort (c : Capacity) : String :=
  String.ofList (Nat.toDigits 10 (c.toNat / 10 ^ 8) ++
    if shortFraction c = [] then [] else '.' :: shortFraction c)

theorem isDigit_digitChar {d : Nat} (h : d < 10) : d.digitChar.isDigit = true := by
  rw [Nat.isDigit_digitChar, decide_eq_true h]

theorem toNat_digitChar {d : Nat} (h : d < 10) : d.digitChar.toNat - '0'.toNat = d := by
  have hall : ∀ e < 10, e.digitChar.toNat - '0'.toNat = e := by decide
  exact hall d h

/-- The digits of a number are a numeral for it. -/
theorem numeral_toDigits (n : Nat) : Numeral (Nat.toDigits 10 n) n := by
  induction n using Nat.strongRecOn with
  | _ n ih =>
    by_cases hn : n < 10
    · have hdigit := Numeral.digit (isDigit_digitChar hn)
      rw [toNat_digitChar hn] at hdigit
      rwa [Nat.toDigits_of_lt_base hn]
    · have hlast : n % 10 < 10 := Nat.mod_lt n (by decide)
      have hdigits := (ih (n / 10) (by omega)).snoc (isDigit_digitChar hlast)
      rw [toNat_digitChar hlast, Nat.div_add_mod] at hdigits
      rwa [Nat.toDigits_of_base_le (by decide) (Nat.le_of_not_lt hn)]

theorem length_lastDigits (k n : Nat) : (lastDigits k n).length = k := by
  induction k generalizing n with
  | zero => rfl
  | succ k ih => rw [lastDigits, List.length_append, ih, List.length_singleton]

theorem isDigit_of_mem_lastDigits {k n : Nat} {x : Char} (h : x ∈ lastDigits k n) :
    x.isDigit = true := by
  induction k generalizing n with
  | zero => exact absurd h List.not_mem_nil
  | succ k ih =>
    rcases List.mem_append.mp h with h | h
    · exact ih h
    · rw [List.mem_singleton.mp h]
      exact isDigit_digitChar (Nat.mod_lt n (by decide))

theorem digitsValue_lastDigits (k n : Nat) : digitsValue (lastDigits k n) = n % 10 ^ k := by
  induction k generalizing n with
  | zero => exact (Nat.mod_one n).symm
  | succ k ih =>
    rw [lastDigits, digitsValue_concat, ih, toNat_digitChar (Nat.mod_lt n (by decide)),
      Nat.pow_succ', Nat.mod_mul, Nat.add_comm]

theorem written_writeFull (c : Capacity) : Written (writeFull c).toList c.toNat := by
  have hnumeral : Numeral (lastDigits 8 c.toNat) (c.toNat % 10 ^ 8) :=
    numeral_iff.mpr ⟨isNumeral_iff.mpr ⟨List.ne_nil_of_length_pos (by
      rw [length_lastDigits]; decide), fun _ => isDigit_of_mem_lastDigits⟩,
      digitsValue_lastDigits 8 c.toNat⟩
  have h := Written.fraction (numeral_toDigits (c.toNat / 10 ^ 8)) hnumeral
    (Nat.le_of_eq (length_lastDigits _ _))
  rw [length_lastDigits, Nat.sub_self, Nat.pow_zero, Nat.mul_one, Nat.mul_comm,
    Nat.div_add_mod] at h
  rw [writeFull, String.toList_ofList]
  exact h

/-- The eight digits are the short fraction and zeros. -/
theorem lastDigits_eq_append (c : Capacity) :
    lastDigits 8 c.toNat =
      shortFraction c ++ List.replicate (8 - (shortFraction c).length) '0' := by
  have hsplit : shortFraction c ++ (lastDigits 8 c.toNat).rtakeWhile (· == '0') =
      lastDigits 8 c.toNat := List.rdropWhile_append_rtakeWhile
  have hlength := congrArg List.length hsplit
  rw [List.length_append, length_lastDigits] at hlength
  have hzeros : (lastDigits 8 c.toNat).rtakeWhile (· == '0') =
      List.replicate (8 - (shortFraction c).length) '0' := by
    refine List.eq_replicate_iff.mpr ⟨by omega, fun x hx => ?_⟩
    exact eq_of_beq (List.mem_rtakeWhile_imp (p := (· == '0')) hx)
  rw [← hzeros, hsplit]

theorem written_writeShort (c : Capacity) : Written (writeShort c).toList c.toNat := by
  have hsplit := lastDigits_eq_append c
  have hvalue := digitsValue_lastDigits 8 c.toNat
  rw [hsplit, digitsValue_append_zeros] at hvalue
  have hlength := congrArg List.length hsplit
  rw [List.length_append, length_lastDigits] at hlength
  have hwhole := numeral_toDigits (c.toNat / 10 ^ 8)
  have hsum : c.toNat / 10 ^ 8 * 10 ^ 8 + c.toNat % 10 ^ 8 = c.toNat := by
    rw [Nat.mul_comm, Nat.div_add_mod]
  rw [writeShort, String.toList_ofList]
  by_cases hnil : shortFraction c = []
  · have hzero : c.toNat % 10 ^ 8 = 0 := by
      rw [← hvalue, hnil]
      rfl
    have h := Written.whole hwhole
    rw [hzero, Nat.add_zero] at hsum
    rw [if_pos hnil, List.append_nil]
    rwa [hsum] at h
  · rw [if_neg hnil]
    have hfraction : Numeral (shortFraction c) (digitsValue (shortFraction c)) := by
      refine numeral_iff.mpr ⟨isNumeral_iff.mpr ⟨hnil, fun x hx => ?_⟩, rfl⟩
      exact isDigit_of_mem_lastDigits (hsplit ▸ List.mem_append_left _ hx)
    have h := Written.fraction hwhole hfraction (by omega)
    rwa [hvalue, hsum] at h

/-- An amount of CKB or of tokens is read from exactly the texts of its grammar, as what the grammar
says, and every other text is refused as an invalid amount. So an amount of shannons is read back
from whole CKB, a point and eight digits, and from the same without the zeros at its end. -/
theorem readings_exact :
    (∀ (input : String) (c : Capacity),
      readCapacity input = .ok c ↔ Written input.toList c.toNat) ∧
    (∀ input : String, (¬ ∃ n < 2 ^ 64, Written input.toList n) →
      ∃ e, readCapacity input = .error e ∧ (Failure.amount e).kind = .invalidAmount) ∧
    (∀ (input : String) (t : TokenAmount),
      readTokens input = .ok t ↔ Numeral input.toList t.toNat) ∧
    (∀ input : String, (¬ ∃ n < 2 ^ 128, Numeral input.toList n) →
      ∃ e, readTokens input = .error e ∧ (Failure.amount e).kind = .invalidAmount) ∧
    ∀ c : Capacity, readCapacity (writeFull c) = .ok c ∧ readCapacity (writeShort c) = .ok c := by
  refine ⟨fun _ _ => readCapacity_eq_ok_iff, fun input hnone => ?_,
    fun _ _ => readTokens_eq_ok_iff, fun input hnone => ?_, fun c =>
    ⟨readCapacity_eq_ok_iff.mpr (written_writeFull c),
      readCapacity_eq_ok_iff.mpr (written_writeShort c)⟩⟩
  · cases h : readCapacity input with
    | ok c => exact absurd ⟨c.toNat, Capacity.toNat_lt c, readCapacity_eq_ok_iff.mp h⟩ hnone
    | error e => exact ⟨e, rfl, rfl⟩
  · cases h : readTokens input with
    | ok t => exact absurd ⟨t.toNat, t.isLt, readTokens_eq_ok_iff.mp h⟩ hnone
    | error e => exact ⟨e, rfl, rfl⟩

/-- Seven CKB and a tenth, written in full, in short and with needless zeros. -/
theorem readings_exact_tenth :
    writeFull 710000000 = "7.10000000" ∧ writeShort 710000000 = "7.1" ∧
      readCapacity "7.10000000" = .ok 710000000 ∧ readCapacity "7.1" = .ok 710000000 ∧
      readCapacity "007.10" = .ok 710000000 := by
  have hfull : writeFull 710000000 = "7.10000000" := by decide +kernel
  have hshort : writeShort 710000000 = "7.1" := by decide +kernel
  obtain ⟨hread, -, -, -, hwritten⟩ := readings_exact
  obtain ⟨hreadFull, hreadShort⟩ := hwritten 710000000
  rw [hfull] at hreadFull
  rw [hshort] at hreadShort
  have hzeros : Written "007.10".toList 710000000 :=
    .fraction (.snoc (.snoc (.digit (c := '0') rfl) (c := '0') rfl) (c := '7') rfl)
      (.snoc (.digit (c := '1') rfl) (c := '0') rfl) (by decide)
  exact ⟨hfull, hshort, hreadFull, hreadShort, (hread "007.10" 710000000).mpr hzeros⟩

end CellTx.Amount
