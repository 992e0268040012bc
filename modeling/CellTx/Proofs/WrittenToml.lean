import CellTx.Config.Writer
import CellTx.Proofs.WrittenAmounts
import CellTx.Toml.Document

/-!
# TOML texts as they are written

The texts that a program writes are a small part of what may be read: settings with a bare `Key` and
a `Scalar` on a line each, and `Block`s of them under a header. Each reader is met with the text
that was written for it and any rest behind it that stops it.

Results:
* `key?_append`, `keys?_dotted`, `value?_written`: keys, paths of keys and values.
* `entry?_line`, `header?_dotted`: settings and headers.
* `sections?_blocks`: blocks, by induction on them.
* `Toml.read?_joined`: such a text is read as the sections that it was written from, and not at all
  when a number in it has more than 63 bits.

Out of scope: comments, strings with escapes, arrays and tables in braces, which nothing writes.
-/

namespace CellTx

theorem Hex.value?_of_isDigit {c : Char} (h : c.isDigit = true) :
    Hex.value? c = some (c.toNat - '0'.toNat) := by
  rw [Char.isDigit, Bool.and_eq_true, decide_eq_true_eq, decide_eq_true_eq] at h
  exact if_pos h

namespace Toml

/-! ## Keys -/

/-- A key that needs no quotes. -/
structure Key where
  name : String
  ne_nil : name.toList ≠ [] := by decide
  all_bare : name.toList.all isBare = true := by decide

theorem Key.bare (k : Key) : ∀ c ∈ k.name.toList, isBare c = true := List.all_eq_true.mp k.all_bare

/-- A text that no key or integer goes on into. -/
def Stops (rest : List Char) : Prop := ∀ c ∈ rest.head?, isBare c = false

theorem ne_of_isBare {c d : Char} (h : isBare c = true) (hd : isBare d = false) : c ≠ d := by
  rintro rfl
  exact nomatch h.symm.trans hd

theorem stops_cons {c : Char} (h : isBare c = false) (cs : List Char) : Stops (c :: cs) :=
  fun _ hd => Option.some.inj hd ▸ h

section Bare

variable {cs rest : List Char}

theorem takeWhile_bare (hcs : ∀ c ∈ cs, isBare c = true) (hrest : Stops rest) :
    (cs ++ rest).takeWhile isBare = cs := by
  rw [List.takeWhile_append_of_pos hcs]
  cases rest with
  | nil => rw [List.takeWhile_nil, List.append_nil]
  | cons c rest => rw [List.takeWhile_cons_of_neg (by simp [hrest c rfl]), List.append_nil]

theorem dropWhile_bare (hcs : ∀ c ∈ cs, isBare c = true) (hrest : Stops rest) :
    (cs ++ rest).dropWhile isBare = rest := by
  rw [List.dropWhile_append_of_pos hcs]
  cases rest with
  | nil => rfl
  | cons c rest => rw [List.dropWhile_cons_of_neg (by simp [hrest c rfl])]

theorem string?_bare {c : Char} (h : isBare c = true) : string? (c :: cs) = none := by
  unfold string?
  split
  case h_5 => rfl
  all_goals
    rename_i heq
    exact absurd (List.cons.inj heq).1 (ne_of_isBare h (by decide))

theorem skipBlanks_bare {c : Char} (h : isBare c = true) : skipBlanks (c :: cs) = c :: cs := by
  refine List.dropWhile_cons_of_neg fun hblank => ?_
  rw [isBlank, Bool.or_eq_true, decide_eq_true_eq, decide_eq_true_eq] at hblank
  exact hblank.elim (ne_of_isBare h (by decide)) (ne_of_isBare h (by decide))

end Bare

namespace Key

variable {rest : List Char}

theorem exists_cons (k : Key) : ∃ c cs, k.name.toList = c :: cs ∧ isBare c = true := by
  obtain ⟨c, cs, h⟩ := List.exists_cons_of_ne_nil k.ne_nil
  exact ⟨c, cs, h, k.bare c (h ▸ List.mem_cons_self)⟩

theorem skipBlanks_append (k : Key) :
    skipBlanks (k.name.toList ++ rest) = k.name.toList ++ rest := by
  obtain ⟨c, cs, h, hc⟩ := k.exists_cons
  rw [h]
  exact skipBlanks_bare hc

theorem key?_append (k : Key) (hrest : Stops rest) :
    key? (k.name.toList ++ rest) = some (k.name, rest) := by
  obtain ⟨c, cs, h, hc⟩ := k.exists_cons
  have hstring : string? (k.name.toList ++ rest) = none := by
    rw [h]
    exact string?_bare hc
  have hne : k.name.toList.isEmpty = false := List.isEmpty_eq_false_iff.mpr k.ne_nil
  rw [key?, hstring]
  simp only [takeWhile_bare k.bare hrest, dropWhile_bare k.bare hrest, hne, Bool.false_eq_true,
    if_false, String.ofList_toList]

end Key

/-- Keys with points between them. -/
def dotted (path : List Key) : String := ".".intercalate (path.map Key.name)

theorem dotted_singleton (k : Key) : dotted [k] = k.name := rfl

theorem toList_dotted_cons_cons (k k' : Key) (path : List Key) :
    (dotted (k :: k' :: path)).toList =
      k.name.toList ++ '.' :: (dotted (k' :: path)).toList := by
  simp only [dotted, String.toList_intercalate, List.map_cons, List.intercalate_cons_cons]
  rw [List.append_assoc]
  rfl

/-- What is read of a path is its keys, and blanks behind it. -/
theorem keys?_dotted {path : List Key} {fuel : Nat} {rest : List Char} (hne : path ≠ [])
    (hfuel : path.length ≤ fuel) (hrest : Stops rest)
    (hpoint : ∀ cs, skipBlanks rest ≠ '.' :: cs) :
    keys? fuel ((dotted path).toList ++ rest) = some (path.map Key.name, skipBlanks rest) := by
  induction path generalizing fuel with
  | nil => exact absurd rfl hne
  | cons k path ih =>
    obtain ⟨fuel, rfl⟩ := Nat.exists_eq_add_of_le' (Nat.le_trans (Nat.succ_pos _) hfuel)
    cases path with
    | nil =>
      rw [dotted_singleton, keys?, k.skipBlanks_append, k.key?_append hrest]
      simp only [Option.bind_eq_bind, Option.bind_some]
      rfl
    | cons k' path =>
      have hlength : (k' :: path).length ≤ fuel := Nat.le_of_succ_le_succ hfuel
      have hstops : Stops ('.' :: ((dotted (k' :: path)).toList ++ rest)) :=
        stops_cons (by decide) _
      rw [toList_dotted_cons_cons, List.append_assoc, List.cons_append, keys?,
        k.skipBlanks_append, k.key?_append hstops]
      simp only [Option.bind_eq_bind, Option.bind_some]
      have hpoint : skipBlanks ('.' :: ((dotted (k' :: path)).toList ++ rest)) =
          '.' :: ((dotted (k' :: path)).toList ++ rest) := rfl
      rw [hpoint]
      simp only [ih (List.cons_ne_nil _ _) hlength, Option.bind_some]
      rfl

/-! ## Texts in quotes -/

/-- A character that stands for itself between double quotes. -/
def isPlain (c : Char) : Bool := 32 ≤ c.toNat && c.toNat < 127 && c ≠ '"' && c ≠ '\\'

/-- A text that needs no escapes. -/
structure Plain where
  text : String
  ne_nil : text.toList ≠ []
  all_plain : text.toList.all isPlain = true

theorem Plain.plain (t : Plain) : ∀ c ∈ t.text.toList, isPlain c = true :=
  List.all_eq_true.mp t.all_plain

theorem basicText?_plain {cs : List Char} (h : ∀ c ∈ cs, isPlain c = true) (rest : List Char) :
    basicText? (cs ++ '"' :: rest) = some (cs, rest) := by
  induction cs with
  | nil => rfl
  | cons c cs ih =>
    have hc := h c List.mem_cons_self
    have hcs := ih fun d hd => h d (List.mem_cons_of_mem c hd)
    simp only [isPlain, Bool.and_eq_true, decide_eq_true_eq] at hc
    obtain ⟨⟨⟨hl, hu⟩, hquote⟩, hslash⟩ := hc
    have htext : isText c = true := by
      rw [isText, isComment, Bool.and_eq_true, Bool.or_eq_true, decide_eq_true_eq,
        decide_eq_true_eq, decide_eq_true_eq]
      exact ⟨Or.inr hl, Nat.ne_of_lt hu⟩
    rw [List.cons_append]
    unfold basicText?
    split
    case h_6 =>
      rename_i heq
      obtain ⟨rfl, rfl⟩ := List.cons.inj heq
      rw [if_pos htext, hcs]
      rfl
    case h_1 heq => exact nomatch heq
    case h_2 heq => exact absurd (List.cons.inj heq).1 hquote
    all_goals
      rename_i heq
      exact absurd (List.cons.inj heq).1 hslash

/-! ## Integers -/

theorem isBare_of_isDigit {c : Char} (h : c.isDigit = true) : isBare c = true := by
  rw [isBare, Char.isAlphanum, h]
  simp only [Bool.or_true, Bool.true_or]

/-- Digits without marks between them are their own. -/
theorem ungroup?_digits {isDigit : Char → Bool} {cs : List Char} (hmark : isDigit '_' = false)
    (hne : cs ≠ []) (h : ∀ c ∈ cs, isDigit c = true) : ungroup? isDigit cs = some cs := by
  induction cs with
  | nil => exact absurd rfl hne
  | cons c cs ih =>
    have hc := h c List.mem_cons_self
    cases cs with
    | nil => rw [ungroup?, if_pos hc]
    | cons d cs =>
      have hd : d ≠ '_' := fun heq => by
        have := h d (List.mem_cons_of_mem c List.mem_cons_self)
        rw [heq, hmark] at this
        exact nomatch this
      have hcs := ih (List.cons_ne_nil d cs) fun e he => h e (List.mem_cons_of_mem c he)
      rw [ungroup?, if_pos hc, hcs]
      · rfl
      · exact nofun
      · exact fun rest heq => hd (List.cons.inj heq).1

/-- The value of a numeral. -/
theorem number?_numeral {cs : List Char} {n : Nat} (h : Amount.Numeral cs n) :
    number? 10 cs = some n := by
  obtain ⟨hdigits, rfl⟩ := Amount.numeral_iff.mp h
  obtain ⟨hne, hall⟩ := Amount.isNumeral_iff.mp hdigits
  have hlt : ∀ c : Char, c.isDigit = true → c.toNat - '0'.toNat < 10 := by
    intro c hc
    have := (Char.isDigit_iff_toNat.mp hc).2
    simp only [Char.reduceToNat] at this ⊢
    omega
  rw [number?, ungroup?_digits rfl hne fun c hc => by
    rw [Hex.value?_of_isDigit (hall c hc), Option.any_some, decide_eq_true (hlt c (hall c hc))]]
  refine congrArg some ?_
  clear h hdigits hne
  rw [Amount.digitsValue]
  refine List.foldl_ext _ _ _ fun n c hc => ?_
  rw [Hex.value?_of_isDigit (hall c hc)]
  rfl

theorem isDigit_of_mem_toDigits {n : Nat} {c : Char} (h : c ∈ Nat.toDigits 10 n) :
    c.isDigit = true := Nat.isDigit_of_mem_toDigits (by decide) (by decide) h

theorem isBare_of_mem_toDigits {n : Nat} {c : Char} (h : c ∈ Nat.toDigits 10 n) :
    isBare c = true := isBare_of_isDigit (isDigit_of_mem_toDigits h)

theorem exists_cons_toDigits (n : Nat) :
    ∃ c cs, Nat.toDigits 10 n = c :: cs ∧ isBare c = true := by
  obtain ⟨c, cs, h⟩ := List.exists_cons_of_ne_nil (Nat.toDigits_ne_nil (b := 10) (n := n))
  exact ⟨c, cs, h, isBare_of_mem_toDigits (h ▸ List.mem_cons_self)⟩

/-- No number but zero is written with a leading zero. -/
theorem head?_toDigits {n : Nat} (hn : n ≠ 0) : (Nat.toDigits 10 n).head? ≠ some '0' := by
  induction n using Nat.strongRecOn with
  | _ n ih =>
    by_cases hlt : n < 10
    · rw [Nat.toDigits_of_lt_base hlt, List.head?_singleton]
      have hall : ∀ d < 10, d ≠ 0 → some d.digitChar ≠ some '0' := by decide
      exact hall n hlt hn
    · have hhead := ih (n / 10) (by omega) (by omega)
      obtain ⟨c, cs, hcs, -⟩ := exists_cons_toDigits (n / 10)
      rw [hcs] at hhead
      rw [Nat.toDigits_of_base_le (by decide) (Nat.le_of_not_lt hlt), hcs]
      exact hhead

theorem decimal?_toDigits (n : Nat) : decimal? (Nat.toDigits 10 n) = some n := by
  by_cases hn : n = 0
  · subst hn
    rfl
  unfold decimal?
  split
  · rename_i heq
    exact absurd (by rw [heq]; rfl) (head?_toDigits hn)
  · rename_i heq
    exact absurd (by rw [heq]; rfl) (head?_toDigits hn)
  · exact number?_numeral (Amount.numeral_toDigits n)

/-- An integer is read as it is written, when it fits. -/
theorem integer?_toDigits (n : Nat) :
    integer? (Nat.toDigits 10 n) = if n < 2 ^ 63 then some (n : Int) else none := by
  -- no digit is a sign, or the letter in the mark of a base
  have hdigit : ∀ before c after, Nat.toDigits 10 n = before ++ c :: after → c.isDigit = true :=
    fun before c after h =>
      isDigit_of_mem_toDigits (h ▸ List.mem_append_right before List.mem_cons_self)
  have hlow : decide (-0x8000000000000000 ≤ (n : Int)) = true := decide_eq_true (by omega)
  have hfits : (if -0x8000000000000000 ≤ (n : Int) && (n : Int) < 0x8000000000000000 then
      some (n : Int) else none) = if n < 2 ^ 63 then some (n : Int) else none := by
    rw [hlow, Bool.true_and]
    exact if_congr (decide_eq_true_iff.trans (by omega)) rfl rfl
  rw [integer?, decimal?_toDigits]
  · rw [Option.map_some, Int.ofNat_eq_natCast]
    change (some (n : Int)).bind _ = _
    rw [Option.bind_some]
    beta_reduce
    rw [hfits]
  · exact fun rest h => absurd (hdigit ['0'] 'x' rest h) (by decide)
  · exact fun rest h => absurd (hdigit ['0'] 'o' rest h) (by decide)
  · exact fun rest h => absurd (hdigit ['0'] 'b' rest h) (by decide)
  · exact fun rest h => absurd (hdigit [] '-' rest h) (by decide)

/-! ## Scalars -/

/-- A value that is written on one line: a text that needs no escapes, or a number. -/
inductive Scalar where
  | text (t : Plain)
  | number (n : Nat)

namespace Scalar

/-- The value in writing. -/
def written : Scalar → String
  | text t => Config.inQuotes t.text
  | number n => toString n

/-- What is read where the value is written: nothing when an integer has more than 63 bits. -/
def value? : Scalar → Option Value
  | text t => some (.string t.text)
  | number n => if n < 2 ^ 63 then some (.integer n) else none

theorem toList_written_text (t : Plain) (rest : List Char) :
    (text t).written.toList ++ rest = '"' :: (t.text.toList ++ '"' :: rest) := by
  simp only [written, Config.inQuotes, String.toList_append, List.append_assoc]
  rfl

theorem toList_written_number (n : Nat) :
    (number n).written.toList = Nat.toDigits 10 n := by
  rw [written, Nat.toString_eq_repr, Nat.repr_eq_ofList_toDigits, String.toList_ofList]

end Scalar

theorem string?_plain (t : Plain) (rest : List Char) :
    string? ('"' :: (t.text.toList ++ '"' :: rest)) = some ((t.text.toList, false), rest) := by
  have hquote : ∀ cs, t.text.toList ++ '"' :: rest ≠ '"' :: cs := by
    obtain ⟨c, cs, hcs⟩ := List.exists_cons_of_ne_nil t.ne_nil
    intro cs' heq
    rw [hcs] at heq
    have := t.plain c (hcs ▸ List.mem_cons_self)
    rw [(List.cons.inj heq).1] at this
    exact absurd this (by decide)
  rw [string?, basicText?_plain t.plain rest]
  · rfl
  · exact fun cs heq => hquote _ heq

/-- A value is read up to where its writing ends. -/
theorem value?_written (v : Scalar) (fuel : Nat) {rest : List Char} (hrest : Stops rest) :
    value? (fuel + 1) (v.written.toList ++ rest) = v.value?.map fun x => (x, rest) := by
  cases v with
  | text t =>
    rw [Scalar.toList_written_text, value?, string?_plain]
    · simp only [String.ofList_toList]
      rfl
    · exact nofun
    · exact nofun
    · exact nofun
  | number n =>
    rw [Scalar.toList_written_number]
    have hbare : ∀ c ∈ Nat.toDigits 10 n, isBare c = true := fun c => isBare_of_mem_toDigits
    obtain ⟨c, cs, hcs, hc⟩ := exists_cons_toDigits n
    have hhead : ∀ d cs', isBare d = false → Nat.toDigits 10 n ++ rest ≠ d :: cs' := by
      intro d cs' hd heq
      rw [hcs] at heq
      exact ne_of_isBare hc hd (List.cons.inj heq).1
    have hstring : string? (Nat.toDigits 10 n ++ rest) = none := by
      rw [hcs]
      exact string?_bare hc
    rw [value?, hstring]
    · simp only [takeWhile_bare hbare hrest, dropWhile_bare hbare hrest, integer?_toDigits,
        Scalar.value?]
      split
      · rfl
      · rfl
    · exact fun cs' => hhead _ cs' (by decide)
    · exact fun cs' => hhead _ cs' (by decide)
    · exact fun cs' => hhead _ cs' (by decide)

/-! ## Settings -/

/-- A value with its key. -/
structure Setting where
  key : Key
  value : Scalar

namespace Setting

/-- The line of a setting. -/
def line (s : Setting) : String := Config.setting s.key.name s.value.written

/-- What is read where a setting is written. -/
def entry? (s : Setting) : Option (String × Value) := s.value.value?.map fun x => (s.key.name, x)

theorem toList_line (s : Setting) :
    s.line.toList = s.key.name.toList ++ ' ' :: '=' :: ' ' :: s.value.written.toList := by
  simp only [line, Config.setting, String.toList_append, List.append_assoc]
  rfl

end Setting

/-- The characters of some lines. -/
def chars (lines : List String) : List Char := lines.flatMap fun l => l.toList ++ ['\n']

theorem skipBlanks_written (v : Scalar) (rest : List Char) :
    skipBlanks (' ' :: (v.written.toList ++ rest)) = v.written.toList ++ rest := by
  cases v with
  | text t =>
    rw [Scalar.toList_written_text]
    rfl
  | number n =>
    obtain ⟨c, cs, hcs, hc⟩ := exists_cons_toDigits n
    rw [Scalar.toList_written_number, hcs]
    exact skipBlanks_bare hc

theorem entry?_line (s : Setting) (fuel : Nat) (entries : Entries) (rest : List Char) :
    Toml.entry? (fuel + 1) entries (s.line.toList ++ '\n' :: rest) =
      s.entry?.map fun e => (entries ++ [e], rest) := by
  have hequal : Stops (' ' :: '=' :: ' ' :: (s.value.written.toList ++ '\n' :: rest)) :=
    stops_cons (by decide) _
  have hend : Stops ('\n' :: rest) := stops_cons (by decide) _
  have hkeys := keys?_dotted (List.cons_ne_nil s.key []) (Nat.le_add_left 1 fuel) hequal nofun
  have hvalue := value?_written s.value fuel hend
  rw [s.toList_line, List.append_assoc, List.cons_append, List.cons_append, List.cons_append]
  rw [dotted_singleton] at hkeys
  rw [Toml.entry?, hkeys]
  have hequals : ∀ cs, skipBlanks (' ' :: '=' :: cs) = '=' :: cs := fun cs => rfl
  simp only [Option.bind_eq_bind, Option.bind_some, hequals, skipBlanks_written, hvalue,
    Setting.entry?]
  cases s.value.value? with
  | none => rfl
  | some v => rfl

/-! ## Groups of settings -/

/-- Settings under a header. -/
structure Block where
  path : List Key
  ne_nil : path ≠ [] := by exact List.cons_ne_nil _ _
  settings : List Setting

namespace Block

/-- The lines of the settings, after an empty line and the header. -/
def lines (b : Block) : List String := Config.group (dotted b.path) (b.settings.map Setting.line)

/-- What is read where the settings are written. -/
def section? (b : Block) : Option Section :=
  (b.settings.mapM Setting.entry?).map fun entries => ⟨b.path.map Key.name, false, entries⟩

end Block

theorem chars_append (lines lines' : List String) :
    chars (lines ++ lines') = chars lines ++ chars lines' := List.flatMap_append

theorem chars_cons (line : String) (lines : List String) :
    chars (line :: lines) = line.toList ++ '\n' :: chars lines := by
  rw [chars, List.flatMap_cons, List.append_assoc]
  rfl

theorem Key.skipGap?_append (k : Key) (rest : List Char) :
    skipGap? false (k.name.toList ++ rest) = some (k.name.toList ++ rest) := by
  obtain ⟨c, cs, h, hc⟩ := k.exists_cons
  have hline : c ≠ '\n' := ne_of_isBare hc (by decide)
  have hcomment : c ≠ '#' := ne_of_isBare hc (by decide)
  have hblank : isBlank c = false := by
    rw [isBlank, Bool.or_eq_false_iff, decide_eq_false_iff_not, decide_eq_false_iff_not]
    exact ⟨ne_of_isBare hc (by decide), ne_of_isBare hc (by decide)⟩
  rw [h, List.cons_append, skipGap?, if_neg hline, if_neg Bool.false_ne_true, hblank,
    if_neg Bool.false_ne_true, if_neg hcomment]

theorem exists_dotted_append {path : List Key} (hne : path ≠ []) (rest : List Char) :
    ∃ k : Key, ∃ rest', (dotted path).toList ++ rest = k.name.toList ++ rest' := by
  cases path with
  | nil => exact absurd rfl hne
  | cons k path =>
    cases path with
    | nil => exact ⟨k, rest, rfl⟩
    | cons k' path =>
      rw [toList_dotted_cons_cons, List.append_assoc]
      exact ⟨k, _, rfl⟩

theorem header?_dotted {path : List Key} {fuel : Nat} (hne : path ≠ [])
    (hfuel : path.length ≤ fuel) (rest : List Char) :
    header? fuel ((dotted path).toList ++ ']' :: '\n' :: rest) =
      some (⟨path.map Key.name, false, []⟩, rest) := by
  have hstops : Stops (']' :: '\n' :: rest) := stops_cons (by decide) _
  have hkeys := keys?_dotted hne hfuel hstops nofun
  have hhead : ∀ cs, (dotted path).toList ++ ']' :: '\n' :: rest ≠ '[' :: cs := by
    obtain ⟨k, rest', heq⟩ := exists_dotted_append hne (']' :: '\n' :: rest)
    obtain ⟨c, cs, hcs, hc⟩ := k.exists_cons
    intro cs' h
    rw [heq, hcs] at h
    exact ne_of_isBare hc (by decide) (List.cons.inj h).1
  have hend : skipBlanks (']' :: '\n' :: rest) = ']' :: '\n' :: rest := rfl
  rw [header?]
  · simp only [hkeys, hend, Option.bind_eq_bind, Option.bind_some]
    rfl
  · exact fun cs heq => hhead cs heq

/-- One step over a setting. -/
theorem sections?_line (s : Setting) (fuel n : Nat) (current : Section) (rest : List Char) :
    sections? (fuel + 1) (n + 1) current (s.line.toList ++ '\n' :: rest) =
      s.entry?.bind fun e =>
        sections? (fuel + 1) n { current with entries := current.entries ++ [e] } rest := by
  have hline := entry?_line s fuel current.entries rest
  have hgap : skipGap? false (s.line.toList ++ '\n' :: rest) =
      some (s.line.toList ++ '\n' :: rest) := by
    rw [s.toList_line, List.append_assoc]
    exact s.key.skipGap?_append _
  -- what stands there is no header and not the end of the text
  obtain ⟨c, cs, hcs, hc⟩ : ∃ c cs, s.line.toList ++ '\n' :: rest = c :: cs ∧ c ≠ '[' := by
    obtain ⟨c, cs, hcs, hc⟩ := s.key.exists_cons
    exact ⟨c, _, by rw [s.toList_line, hcs]; rfl, ne_of_isBare hc (by decide)⟩
  rw [hcs] at hline hgap ⊢
  rw [sections?, hgap]
  simp only [Option.bind_eq_bind, Option.bind_some]
  split
  case h_1 heq => exact nomatch heq
  case h_2 heq => exact absurd (List.cons.inj heq).1 hc
  case h_3 =>
    rw [hline]
    cases s.entry? with
    | none => rfl
    | some e => rfl

/-- Settings are read one after the other. -/
theorem sections?_settings (settings : List Setting) (fuel n : Nat) (current : Section)
    (rest : List Char) :
    sections? (fuel + 1) (settings.length + n) current
        (chars (settings.map Setting.line) ++ rest) =
      (settings.mapM Setting.entry?).bind fun entries =>
        sections? (fuel + 1) n { current with entries := current.entries ++ entries } rest := by
  induction settings generalizing current with
  | nil =>
    rw [List.length_nil, Nat.zero_add, List.mapM_nil]
    change _ = sections? _ _ { current with entries := current.entries ++ [] } rest
    rw [List.append_nil]
    rfl
  | cons s settings ih =>
    rw [List.map_cons, chars_cons, List.append_assoc, List.cons_append, List.length_cons,
      Nat.succ_add, sections?_line, List.mapM_cons]
    cases s.entry? with
    | none => rfl
    | some e =>
      change sections? _ _ _ _ = _
      rw [ih]
      cases settings.mapM Setting.entry? with
      | none => rfl
      | some entries =>
        simp only [Option.bind_some, Option.bind_eq_bind, List.append_assoc, List.singleton_append]
        rfl

theorem sections?_header (b : Block) (fuel n : Nat) (hfuel : b.path.length ≤ fuel)
    (current : Section) (rest : List Char) :
    sections? fuel (n + 1) current
        ('\n' :: '[' :: ((dotted b.path).toList ++ ']' :: '\n' :: rest)) =
      (sections? fuel n ⟨b.path.map Key.name, false, []⟩ rest).map (current :: ·) := by
  have hgap : ∀ cs, skipGap? false ('\n' :: '[' :: cs) = some ('[' :: cs) := fun cs => rfl
  rw [sections?, hgap]
  simp only [Option.bind_eq_bind, Option.bind_some, header?_dotted b.ne_nil hfuel]
  cases sections? fuel n ⟨b.path.map Key.name, false, []⟩ rest with
  | none => rfl
  | some sections => rfl

theorem toList_header (path : List Key) :
    ("[" ++ dotted path ++ "]").toList = '[' :: ((dotted path).toList ++ [']']) := by
  simp only [String.toList_append]
  rfl

theorem Block.chars_lines (b : Block) (rest : List Char) :
    chars b.lines ++ rest = '\n' :: '[' :: ((dotted b.path).toList ++ ']' :: '\n' ::
      (chars (b.settings.map Setting.line) ++ rest)) := by
  rw [lines, Config.group, chars_append, chars_cons, chars_cons, toList_header]
  simp only [chars, List.flatMap_nil, List.append_assoc, List.cons_append, List.nil_append]
  rfl

/-- Groups are read one after the other. -/
theorem sections?_blocks {blocks : List Block} {fuel n : Nat}
    (hfuel : ∀ b ∈ blocks, b.path.length ≤ fuel + 1)
    (hn : (blocks.map fun b => b.settings.length + 1).sum < n) (current : Section) :
    sections? (fuel + 1) n current (chars (blocks.flatMap Block.lines)) =
      (blocks.mapM Block.section?).map (current :: ·) := by
  induction blocks generalizing n current with
  | nil =>
    obtain ⟨n, rfl⟩ := Nat.exists_eq_add_of_le' hn
    rfl
  | cons b blocks ih =>
    rw [List.map_cons, List.sum_cons] at hn
    obtain ⟨n, rfl⟩ := Nat.exists_eq_add_of_lt hn
    -- the header and each setting take a line
    have hblocks := fun current => ih (n := (blocks.map fun b => b.settings.length + 1).sum + n + 1)
      (fun b hb => hfuel b (List.mem_cons_of_mem _ hb)) (by omega) current
    have hlines : b.settings.length + 1 + (blocks.map fun b => b.settings.length + 1).sum + n + 1 =
        b.settings.length + ((blocks.map fun b => b.settings.length + 1).sum + n + 1) + 1 := by
      omega
    rw [List.flatMap_cons, chars_append, b.chars_lines, hlines,
      sections?_header b _ _ (hfuel b List.mem_cons_self), sections?_settings, List.mapM_cons,
      Block.section?]
    cases b.settings.mapM Setting.entry? with
    | none => rfl
    | some entries =>
      rw [Option.bind_some, hblocks]
      cases blocks.mapM Block.section? with
      | none => rfl
      | some sections => rfl

/-! ## Whole texts -/

/-- Lines as a text. -/
def joined (lines : List String) : String := String.join (lines.map (· ++ "\n"))

theorem toList_joined (lines : List String) : (joined lines).toList = chars lines := by
  rw [joined, String.toList_join, List.flatMap_map]
  simp only [String.toList_append]
  rfl

theorem length_le_length_chars (lines : List String) : lines.length ≤ (chars lines).length := by
  induction lines with
  | nil => exact Nat.le_refl _
  | cons line lines ih =>
    rw [chars_cons, List.length_append, List.length_cons, List.length_cons]
    omega

theorem foldLineEnds_of_not_mem {cs : List Char} (h : '\r' ∉ cs) : foldLineEnds cs = cs := by
  induction cs with
  | nil => rfl
  | cons c cs ih =>
    rw [foldLineEnds, ih fun hmem => h (List.mem_cons_of_mem c hmem)]
    rintro rest rfl
    exact fun _ => h List.mem_cons_self

theorem dropMark_of_not_mem {cs : List Char} (h : '\ufeff' ∉ cs) : dropMark cs = cs := by
  cases cs with
  | nil => rfl
  | cons c cs =>
    unfold dropMark
    split
    · rename_i heq
      exact absurd (heq ▸ List.mem_cons_self) h
    · rfl

/-- A character that is not taken out before a text is read. -/
def Kept (c : Char) : Prop := c ≠ '\r' ∧ c ≠ '\ufeff'

instance (c : Char) : Decidable (Kept c) := inferInstanceAs (Decidable (_ ∧ _))

theorem kept_of_isBare {c : Char} (h : isBare c = true) : Kept c :=
  ⟨ne_of_isBare h (by decide), ne_of_isBare h (by decide)⟩

theorem kept_of_isPlain {c : Char} (h : isPlain c = true) : Kept c := by
  constructor
  · rintro rfl
    exact absurd h (by decide)
  · rintro rfl
    exact absurd h (by decide)

theorem Key.kept (k : Key) : ∀ c ∈ k.name.toList, Kept c :=
  fun c hc => kept_of_isBare (k.bare c hc)

theorem kept_dotted (path : List Key) : ∀ c ∈ (dotted path).toList, Kept c := by
  induction path with
  | nil => exact fun c hc => absurd hc List.not_mem_nil
  | cons k path ih =>
    cases path with
    | nil => exact k.kept
    | cons k' path =>
      rw [toList_dotted_cons_cons]
      exact List.forall_mem_append.mpr ⟨k.kept, List.forall_mem_cons.mpr ⟨by decide, ih⟩⟩

theorem Scalar.kept (v : Scalar) : ∀ c ∈ v.written.toList, Kept c := by
  cases v with
  | text t =>
    have h := toList_written_text t []
    rw [List.append_nil] at h
    rw [h]
    exact List.forall_mem_cons.mpr ⟨by decide, List.forall_mem_append.mpr
      ⟨fun c hc => kept_of_isPlain (t.plain c hc), List.forall_mem_singleton.mpr (by decide)⟩⟩
  | number n =>
    rw [toList_written_number]
    exact fun c hc => kept_of_isBare (isBare_of_mem_toDigits hc)

theorem Setting.kept (s : Setting) : ∀ c ∈ s.line.toList, Kept c := by
  rw [s.toList_line]
  refine List.forall_mem_append.mpr ⟨s.key.kept, ?_⟩
  exact List.forall_mem_cons.mpr ⟨by decide, List.forall_mem_cons.mpr ⟨by decide,
    List.forall_mem_cons.mpr ⟨by decide, s.value.kept⟩⟩⟩

theorem kept_chars {lines : List String} (h : ∀ line ∈ lines, ∀ c ∈ line.toList, Kept c) :
    ∀ c ∈ chars lines, Kept c := by
  intro c hc
  obtain ⟨line, hline, hc⟩ := List.mem_flatMap.mp hc
  rcases List.mem_append.mp hc with hc | hc
  · exact h line hline c hc
  · exact List.mem_singleton.mp hc ▸ by decide

theorem kept_settings (settings : List Setting) :
    ∀ line ∈ settings.map Setting.line, ∀ c ∈ line.toList, Kept c := by
  intro line hline
  obtain ⟨s, -, rfl⟩ := List.mem_map.mp hline
  exact s.kept

theorem Block.kept (b : Block) : ∀ line ∈ b.lines, ∀ c ∈ line.toList, Kept c := by
  refine List.forall_mem_cons.mpr ⟨fun c hc => absurd hc List.not_mem_nil,
    List.forall_mem_cons.mpr ⟨?_, kept_settings b.settings⟩⟩
  rw [toList_header]
  exact List.forall_mem_cons.mpr ⟨by decide, List.forall_mem_append.mpr
    ⟨kept_dotted b.path, List.forall_mem_singleton.mpr (by decide)⟩⟩

theorem length_le_length_dotted (path : List Key) : path.length ≤ (dotted path).toList.length := by
  induction path with
  | nil => exact Nat.zero_le _
  | cons k path ih =>
    cases path with
    | nil => exact List.length_pos_iff.mpr k.ne_nil
    | cons k' path =>
      rw [toList_dotted_cons_cons]
      simp only [List.length_append, List.length_cons] at ih ⊢
      omega

/-- A text is longer than its groups have lines and than each of their paths has keys. -/
theorem bounds_blocks (blocks : List Block) :
    (blocks.map fun b => b.settings.length + 1).sum ≤
        (chars (blocks.flatMap Block.lines)).length ∧
      ∀ b ∈ blocks, b.path.length ≤ (chars (blocks.flatMap Block.lines)).length := by
  induction blocks with
  | nil => exact ⟨Nat.le_refl _, fun b hb => absurd hb List.not_mem_nil⟩
  | cons b blocks ih =>
    obtain ⟨hsum, hpaths⟩ := ih
    have hsettings := length_le_length_chars (b.settings.map Setting.line)
    have hpath := length_le_length_dotted b.path
    rw [List.length_map] at hsettings
    rw [List.flatMap_cons, chars_append, b.chars_lines]
    simp only [List.map_cons, List.sum_cons, List.length_cons, List.length_append]
    refine ⟨by omega, List.forall_mem_cons.mpr ⟨by omega, fun b' hb' => ?_⟩⟩
    have := hpaths b' hb'
    omega

/-- A text of settings and groups is read as they are written. -/
theorem read?_joined (settings : List Setting) (blocks : List Block) :
    read? (joined (settings.map Setting.line ++ blocks.flatMap Block.lines)) =
      (settings.mapM Setting.entry?).bind fun own =>
        (blocks.mapM Block.section?).map (⟨[], false, own⟩ :: ·) := by
  -- nothing is taken out of the text before it is read
  have hkept : ∀ c ∈ chars (settings.map Setting.line ++ blocks.flatMap Block.lines), Kept c := by
    refine kept_chars (List.forall_mem_append.mpr ⟨kept_settings settings, fun line hline => ?_⟩)
    obtain ⟨b, -, hline⟩ := List.mem_flatMap.mp hline
    exact b.kept line hline
  have hread : foldLineEnds (dropMark (chars (settings.map Setting.line ++
      blocks.flatMap Block.lines))) =
        chars (settings.map Setting.line ++ blocks.flatMap Block.lines) := by
    rw [dropMark_of_not_mem fun hmem => (hkept _ hmem).2 rfl,
      foldLineEnds_of_not_mem fun hmem => (hkept _ hmem).1 rfl]
  -- there are more steps than lines, since every line has a character
  obtain ⟨hsum, hpaths⟩ := bounds_blocks blocks
  have hsettings := length_le_length_chars (settings.map Setting.line)
  have hlength : (chars (settings.map Setting.line ++ blocks.flatMap Block.lines)).length =
      (chars (settings.map Setting.line)).length + (chars (blocks.flatMap Block.lines)).length := by
    rw [chars_append, List.length_append]
  rw [List.length_map] at hsettings
  have hsteps : settings.length ≤
      (chars (settings.map Setting.line ++ blocks.flatMap Block.lines)).length + 1 := by omega
  obtain ⟨n, hn⟩ := Nat.exists_eq_add_of_le hsteps
  rw [read?, toList_joined, hread, hn]
  generalize (chars (settings.map Setting.line ++ blocks.flatMap Block.lines)).length = len at *
  rw [chars_append, sections?_settings]
  refine congrArg _ (funext fun own => ?_)
  exact sections?_blocks (fun b hb => by have := hpaths b hb; omega) (by omega) _

end Toml

end CellTx
