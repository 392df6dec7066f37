import LeaseEscrow.Json.Printer
import LeaseEscrow.Json.Token

/-!
# Scanning printed values

The scanner takes a printed value to its tokens, whether it is printed with lines or without blanks.
It needs to see what follows, for only that ends a number: main statement (`Prints.scans`) is about
a value with more text behind it, and the whole text is the case of nothing behind it
(`tokens?_pretty`, `tokens?_compact`).
-/

namespace LeaseEscrow.Json

/-- Values whose numbers are whole and whose strings mean something. -/
inductive Printable : Json → Prop where
  | null : Printable .null
  | bool (b : Bool) : Printable (.bool b)
  | int (n : Int) : Printable (.num (.int n))
  | str (text : String) : Printable (.str text)
  | arr {items : List Json} (h : ∀ j ∈ items, Printable j) : Printable (.arr items)
  | obj {members : List (String × Json)} (h : ∀ m ∈ members, Printable m.2) :
    Printable (.obj members)

mutual

/-- The tokens of a value. -/
def tokens : Json → List Token
  | .null => [.null]
  | .bool b => [.bool b]
  | .num n => [.num n]
  | .str text => [.str (some text)]
  | .arr [] => [.openArray, .closeArray]
  | .arr (item :: items) => .openArray :: tokens item ++ itemTokens items
  | .obj [] => [.openObject, .closeObject]
  | .obj ((name, value) :: members) =>
    .openObject :: .str (some name) :: .colon :: tokens value ++ memberTokens members
  | .meaningless => [.str none]

/-- The tokens of the items after the first one, and the end of the array. -/
def itemTokens : List Json → List Token
  | [] => [.closeArray]
  | item :: items => .comma :: tokens item ++ itemTokens items

/-- The tokens of the members after the first one, and the end of the object. -/
def memberTokens : List (String × Json) → List Token
  | [] => [.closeObject]
  | (name, value) :: members =>
    .comma :: .str (some name) :: .colon :: tokens value ++ memberTokens members

end

/-- The tokens that the scanner comes to from some state. -/
def scan (s : Scanner) (cs : List Char) : Option (List Token) :=
  (cs.foldlM Scanner.step s).bind Scanner.finish

theorem scan_cons (s : Scanner) (c : Char) (cs : List Char) :
    scan s (c :: cs) = (s.step c).bind fun s' => scan s' cs := by
  rw [scan, List.foldlM_cons]
  cases s.step c <;> rfl

theorem scan_of_step {s s' : Scanner} {c : Char} (h : s.step c = some s') (cs : List Char) :
    scan s (c :: cs) = scan s' cs := by
  rw [scan_cons, h]
  rfl

/-! ## Strings -/

variable {ts : List Token} {rest : List Char}

theorem hexDigit?_hexDigit (n : Nat) : hexDigit? (hexDigit n) = some (n % 16) := by
  have h : ∀ d < 16, hexDigit? (Nat.digitChar d) = some d := by decide
  exact h _ (Nat.mod_lt n (by decide))

/-- An escaped character is read as the one that it stands for. -/
theorem scan_escaped (c : Char) (units : List Nat) :
    scan ⟨.text units, ts⟩ (escaped c ++ rest) = scan ⟨.text (c.toNat :: units), ts⟩ rest := by
  unfold escaped
  split
  · subst_vars; rfl
  split
  · subst_vars; rfl
  split
  · subst_vars; rfl
  split
  · subst_vars; rfl
  split
  · subst_vars; rfl
  split
  · subst_vars; rfl
  split
  · subst_vars; rfl
  split
  · next hcontrol =>
    have hunit : ∀ missing value d, 1 < missing →
        Scanner.step ⟨.unit units missing value, ts⟩ (hexDigit d) =
          some ⟨.unit units (missing - 1) (16 * value + d % 16), ts⟩ := by
      intro missing value d hmissing
      simp only [Scanner.step, hexDigit?_hexDigit, Option.map_some, if_neg (Nat.not_le.2 hmissing)]
    have hlast : ∀ value d, Scanner.step ⟨.unit units 1 value, ts⟩ (hexDigit d) =
        some ⟨.text ((16 * value + d % 16) :: units), ts⟩ := by
      intro value d
      simp only [Scanner.step, hexDigit?_hexDigit, Option.map_some, if_pos (Nat.le_refl 1)]
    have hopen : scan ⟨.text units, ts⟩
        (['\\', 'u', '0', '0', hexDigit (c.toNat / 16), hexDigit c.toNat] ++ rest) =
          scan ⟨.unit units 2 0, ts⟩ (hexDigit (c.toNat / 16) :: hexDigit c.toNat :: rest) := rfl
    have hvalue : 16 * (16 * 0 + c.toNat / 16 % 16) + c.toNat % 16 = c.toNat := by omega
    rw [hopen, scan_of_step (hunit 2 0 _ (by decide)), scan_of_step (hlast _ _), hvalue]
  · next hquote hslash _ _ _ _ _ hcontrol =>
    refine scan_of_step ?_ rest
    simp only [Scanner.step, if_neg hquote, if_neg hslash, if_neg hcontrol]

theorem scan_escapes (cs : List Char) (units : List Nat) :
    scan ⟨.text units, ts⟩ (cs.flatMap escaped ++ rest) =
      scan ⟨.text ((cs.map Char.toNat).reverse ++ units), ts⟩ rest := by
  induction cs generalizing units with
  | nil => rfl
  | cons c cs ih =>
    rw [List.flatMap_cons, List.append_assoc, scan_escaped, ih, List.map_cons, List.reverse_cons,
      List.append_assoc, List.singleton_append]

/-- No character is half of a surrogate pair. -/
theorem not_isSurrogate (c : Char) :
    isHighSurrogate c.toNat = false ∧ isLowSurrogate c.toNat = false := by
  have hvalid : c.toNat.isValidChar := c.valid
  simp only [isHighSurrogate, isLowSurrogate, Bool.and_eq_false_iff, decide_eq_false_iff_not]
  rcases hvalid with h | h <;> omega

theorem ofUnits?_toNat (cs : List Char) : ofUnits? (cs.map Char.toNat) = some cs := by
  induction cs with
  | nil => rfl
  | cons c cs ih =>
    obtain ⟨hhigh, hlow⟩ := not_isSurrogate c
    cases cs with
    | nil => simp [ofUnits?, hhigh, hlow]
    | cons d cs =>
      simp only [List.map_cons] at ih ⊢
      simp [ofUnits?, hhigh, hlow, ih]

theorem scan_quoted (text : String) :
    scan ⟨.between, ts⟩ (quoted text ++ rest) =
      scan ⟨.between, .str (some text) :: ts⟩ rest := by
  have hopen : scan ⟨.between, ts⟩ (quoted text ++ rest) =
      scan ⟨.text [], ts⟩ (text.toList.flatMap escaped ++ '"' :: rest) := by
    rw [quoted, List.cons_append, List.cons_append, List.append_assoc]
    rfl
  have hclose : Scanner.step ⟨.text (text.toList.map Char.toNat).reverse, ts⟩ '"' =
      some ⟨.between, .str (some text) :: ts⟩ := by
    simp only [Scanner.step, if_pos, List.reverse_reverse, ofUnits?_toNat, Option.map_some,
      String.ofList_toList]
  rw [hopen, scan_escapes, List.append_nil, scan_of_step hclose]

/-! ## Numbers -/

/-- What stands here continues no number. -/
def EndsNumber (rest : List Char) : Prop :=
  ∀ c ∈ rest.head?, c.isDigit = false ∧ c ≠ '.' ∧ c ≠ 'e' ∧ c ≠ 'E'

theorem endsNumber_nil : EndsNumber [] := fun _ h => nomatch h

theorem endsNumber_cons {c : Char} (h : c.isDigit = false ∧ c ≠ '.' ∧ c ≠ 'e' ∧ c ≠ 'E') :
    EndsNumber (c :: rest) := by
  intro d hd
  cases hd
  exact h

/-- A whole number is over where nothing continues it. -/
theorem scan_end {mode : Mode} {n : Number} (hrest : EndsNumber rest)
    (hmode : (∃ negative, mode = .zero negative) ∨ ∃ negative digits, mode = .whole negative digits)
    (hnumber : mode.number? = some n) :
    scan ⟨mode, ts⟩ rest = scan ⟨.between, .num n :: ts⟩ rest := by
  cases rest with
  | nil =>
    rcases hmode with ⟨negative, rfl⟩ | ⟨negative, digits, rfl⟩
    · cases hnumber; rfl
    · cases hnumber; rfl
  | cons c rest =>
    obtain ⟨hdigit, hpoint, he, hE⟩ := hrest c rfl
    have hnone : digit? c = none := if_neg (by rw [hdigit]; exact Bool.false_ne_true)
    have hstep : Scanner.step ⟨mode, ts⟩ c = Scanner.step ⟨.between, .num n :: ts⟩ c := by
      rcases hmode with ⟨negative, rfl⟩ | ⟨negative, digits, rfl⟩
      · cases hnumber
        simp only [Scanner.step, Mode.continued?, Mode.number?, hnone, if_neg hpoint, he, hE,
          or_self, if_false, Option.isSome_none, Bool.false_eq_true]
      · cases hnumber
        simp only [Scanner.step, Mode.continued?, Mode.number?, hnone, if_neg hpoint, he, hE,
          or_self, if_false, Option.map_none, Option.isSome_none, Bool.false_eq_true]
    rw [scan_cons, scan_cons, hstep]

/-- The value of a digit. -/
def digitValue (c : Char) : Nat := c.toNat - '0'.toNat

theorem digit?_eq {c : Char} (h : c.isDigit = true) : digit? c = some (digitValue c) := if_pos h

theorem ofDigits_map (cs : List Char) :
    ofDigits (cs.map digitValue) = Nat.ofDigitChars 10 cs 0 := by
  rw [ofDigits, List.foldl_map, Nat.ofDigitChars_eq_foldl]
  rfl

theorem scan_digits {cs : List Char} (hdigits : ∀ c ∈ cs, c.isDigit = true) (negative : Bool)
    (digits : List Nat) :
    scan ⟨.whole negative digits, ts⟩ (cs ++ rest) =
      scan ⟨.whole negative ((cs.map digitValue).reverse ++ digits), ts⟩ rest := by
  induction cs generalizing digits with
  | nil => rfl
  | cons c cs ih =>
    have hc : c.isDigit = true := hdigits c List.mem_cons_self
    have hne : ∀ d, d.isDigit = false → c ≠ d := by
      rintro d hd rfl
      rw [hc] at hd
      cases hd
    have hstep : Scanner.step ⟨.whole negative digits, ts⟩ c =
        some ⟨.whole negative (digitValue c :: digits), ts⟩ := by
      simp only [Scanner.step, Mode.continued?, if_neg (hne '.' rfl), hne 'e' rfl, hne 'E' rfl,
        or_self, if_false, digit?_eq hc, Option.map_some]
    rw [List.cons_append, scan_of_step hstep,
      ih (fun c hc => hdigits c (List.mem_cons_of_mem _ hc)), List.map_cons, List.reverse_cons,
      List.append_assoc, List.singleton_append]

/-- Digits of a positive number do not begin with a zero. -/
theorem exists_toDigits {n : Nat} (h : n ≠ 0) :
    ∃ c cs, Nat.toDigits 10 n = c :: cs ∧ c ≠ '0' := by
  induction n using Nat.strongRecOn with
  | _ n ih =>
    rw [Nat.toDigits_eq_if (by decide)]
    split
    · refine ⟨_, [], rfl, ?_⟩
      rwa [ne_eq, Nat.digitChar_eq_zero]
    · obtain ⟨c, cs, hdigits, hc⟩ := ih (n / 10) (by omega) (by omega)
      exact ⟨c, cs ++ [Nat.digitChar (n % 10)], by rw [hdigits]; rfl, hc⟩

theorem ofWhole_toDigits (negative : Bool) {n : Nat} (h : n ≠ 0) :
    Number.ofWhole negative ((Nat.toDigits 10 n).map digitValue) =
      .int (if negative then -n else n) := by
  rw [Number.ofWhole, ofDigits_map, Nat.ofDigitChars_ten_toDigits]
  cases negative
  · rfl
  · simp [h]

theorem step_digit {c : Char} (hdigit : c.isDigit = true) (hc : c ≠ '0') :
    Scanner.step ⟨.between, ts⟩ c = some ⟨.whole false [digitValue c], ts⟩ := by
  have hblank : isBlank c = false := by
    simp only [isBlank, Bool.or_eq_false_iff, beq_eq_false_iff_ne]
    refine ⟨⟨⟨?_, ?_⟩, ?_⟩, ?_⟩ <;> (rintro rfl; cases hdigit)
  show Scanner.start ts c = _
  unfold Scanner.start
  split
  case h_12 => exact absurd rfl hc
  case h_13 => rw [hblank, digit?_eq hdigit]; rfl
  all_goals cases hdigit

theorem scan_int (n : Int) (hrest : EndsNumber rest) :
    scan ⟨.between, ts⟩ (intChars n ++ rest) = scan ⟨.between, .num (.int n) :: ts⟩ rest := by
  by_cases hzero : n = 0
  · subst hzero
    exact (scan_of_step rfl rest).trans (scan_end hrest (.inl ⟨false, rfl⟩) rfl)
  -- After the sign, if there is one, the first digit opens a whole number.
  · have habs : n.natAbs ≠ 0 := Int.natAbs_ne_zero.2 hzero
    obtain ⟨c, cs, hchars, hc⟩ := exists_toDigits habs
    have hdigits : ∀ d ∈ c :: cs, d.isDigit = true := fun d hd =>
      Nat.isDigit_of_mem_toDigits (by decide) (by decide) (hchars ▸ hd)
    have hwhole : ∀ negative, scan ⟨.whole negative [digitValue c], ts⟩ (cs ++ rest) =
        scan ⟨.between, .num (.int (if negative then -n.natAbs else n.natAbs)) :: ts⟩ rest := by
      intro negative
      rw [scan_digits (fun d hd => hdigits d (List.mem_cons_of_mem _ hd)), ← ofWhole_toDigits
        negative habs, hchars]
      refine scan_end hrest (.inr ⟨_, _, rfl⟩) ?_
      simp [Mode.number?]
    have hfirst := hdigits c List.mem_cons_self
    rw [intChars, hchars]
    by_cases hneg : n < 0
    · have hsign : (-n.natAbs : Int) = n := by omega
      have hminus : Scanner.step ⟨.minus, ts⟩ c = some ⟨.whole true [digitValue c], ts⟩ := by
        simp only [Scanner.step, if_neg hc, digit?_eq hfirst, Option.map_some]
      rw [if_pos hneg]
      show scan ⟨.minus, ts⟩ (c :: (cs ++ rest)) = _
      rw [scan_of_step hminus, hwhole, if_pos rfl, hsign]
    · have hsign : (n.natAbs : Int) = n := by omega
      rw [if_neg hneg, List.nil_append, List.cons_append, scan_of_step (step_digit hfirst hc),
        hwhole, if_neg Bool.false_ne_true, hsign]

/-! ## Values -/

/-- Text that the scanner passes over between tokens. -/
def Blank (bs : List Char) : Prop :=
  ∀ ts rest, scan ⟨.between, ts⟩ (bs ++ rest) = scan ⟨.between, ts⟩ rest

theorem blank_spaces (count : Nat) : Blank (List.replicate count ' ') := by
  intro ts rest
  induction count with
  | zero => rfl
  | succ count ih => exact (scan_of_step rfl _).trans ih

theorem blank_newLine (level : Nat) : Blank (newLine level) := fun ts rest =>
  (scan_of_step rfl _).trans (blank_spaces _ ts rest)

/-- Wherever these characters stand, the scanner takes them to these tokens. -/
def Scans (cs : List Char) (us : List Token) : Prop :=
  ∀ ts rest, EndsNumber rest →
    scan ⟨.between, ts⟩ (cs ++ rest) = scan ⟨.between, us.reverse ++ ts⟩ rest

/-- A way to write values at some level of nesting: what stands before each element and before the
end of an array or an object, and between a name and its value, is passed over. -/
structure Prints (chars : Nat → Json → List Char) (items : Nat → List Json → List Char)
    (members : Nat → List (String × Json) → List Char) (line : Nat → List Char)
    (gap : List Char) : Prop where
  line_blank : ∀ level, Blank (line level)
  line_ends : ∀ level c rest, EndsNumber [c] → EndsNumber (line level ++ c :: rest)
  gap_blank : Blank gap
  null : ∀ level, chars level .null = ['n', 'u', 'l', 'l']
  true : ∀ level, chars level (.bool true) = ['t', 'r', 'u', 'e']
  false : ∀ level, chars level (.bool false) = ['f', 'a', 'l', 's', 'e']
  num : ∀ level n, chars level (.num n) = n.chars
  str : ∀ level text, chars level (.str text) = quoted text
  arr_nil : ∀ level, chars level (.arr []) = ['[', ']']
  arr_cons : ∀ level j js, chars level (.arr (j :: js)) =
    '[' :: line (level + 1) ++ chars (level + 1) j ++ items level js
  items_nil : ∀ level, items level [] = line level ++ [']']
  items_cons : ∀ level j js, items level (j :: js) =
    ',' :: line (level + 1) ++ chars (level + 1) j ++ items level js
  obj_nil : ∀ level, chars level (.obj []) = ['\x7b', '\x7d']
  obj_cons : ∀ level name j ms, chars level (.obj ((name, j) :: ms)) =
    '\x7b' :: line (level + 1) ++ quoted name ++ ':' :: gap ++ chars (level + 1) j ++
      members level ms
  members_nil : ∀ level, members level [] = line level ++ ['\x7d']
  members_cons : ∀ level name j ms, members level ((name, j) :: ms) =
    ',' :: line (level + 1) ++ quoted name ++ ':' :: gap ++ chars (level + 1) j ++
      members level ms

namespace Prints

variable {chars : Nat → Json → List Char} {items : Nat → List Json → List Char}
  {members : Nat → List (String × Json) → List Char} {line : Nat → List Char} {gap : List Char}

theorem endsNumber_items (h : Prints chars items members line gap) (level : Nat) (js : List Json) :
    EndsNumber (items level js ++ rest) := by
  cases js with
  | nil =>
    rw [h.items_nil, List.append_assoc]
    exact h.line_ends level _ _ (endsNumber_cons (by decide))
  | cons j js =>
    rw [h.items_cons]
    exact endsNumber_cons (by decide)

theorem scan_items (h : Prints chars items members line gap) {level : Nat} {js : List Json}
    (hitems : ∀ j ∈ js, Scans (chars (level + 1) j) (tokens j)) (ts : List Token) :
    scan ⟨.between, ts⟩ (items level js ++ rest) =
      scan ⟨.between, (itemTokens js).reverse ++ ts⟩ rest := by
  induction js generalizing ts with
  | nil =>
    rw [h.items_nil, List.append_assoc, h.line_blank]
    exact scan_of_step rfl rest
  | cons j js ih =>
    have hitem := hitems j List.mem_cons_self
    have hcomma : Scanner.step ⟨.between, ts⟩ ',' = some ⟨.between, .comma :: ts⟩ := rfl
    simp only [h.items_cons, itemTokens, List.cons_append, List.append_assoc, List.reverse_cons,
      List.reverse_append, List.nil_append]
    rw [scan_of_step hcomma, h.line_blank, hitem _ _ (h.endsNumber_items level js),
      ih fun j hj => hitems j (List.mem_cons_of_mem _ hj)]

theorem endsNumber_members (h : Prints chars items members line gap) (level : Nat)
    (ms : List (String × Json)) : EndsNumber (members level ms ++ rest) := by
  cases ms with
  | nil =>
    rw [h.members_nil, List.append_assoc]
    exact h.line_ends level _ _ (endsNumber_cons (by decide))
  | cons m ms =>
    rw [h.members_cons]
    exact endsNumber_cons (by decide)

/-- A member: its name, the colon and the value. -/
theorem scan_member (h : Prints chars items members line gap) {cs : List Char} {us : List Token}
    (hvalue : Scans cs us) (name : String) (hrest : EndsNumber rest) (ts : List Token) :
    scan ⟨.between, ts⟩ (quoted name ++ ':' :: (gap ++ (cs ++ rest))) =
      scan ⟨.between, us.reverse ++ .colon :: .str (some name) :: ts⟩ rest := by
  have hcolon : Scanner.step ⟨.between, .str (some name) :: ts⟩ ':' =
      some ⟨.between, .colon :: .str (some name) :: ts⟩ := rfl
  rw [scan_quoted, scan_of_step hcolon, h.gap_blank]
  exact hvalue (.colon :: .str (some name) :: ts) rest hrest

theorem scan_members (h : Prints chars items members line gap) {level : Nat}
    {ms : List (String × Json)} (hmembers : ∀ m ∈ ms, Scans (chars (level + 1) m.2) (tokens m.2))
    (ts : List Token) :
    scan ⟨.between, ts⟩ (members level ms ++ rest) =
      scan ⟨.between, (memberTokens ms).reverse ++ ts⟩ rest := by
  induction ms generalizing ts with
  | nil =>
    rw [h.members_nil, List.append_assoc, h.line_blank]
    exact scan_of_step rfl rest
  | cons m ms ih =>
    obtain ⟨name, value⟩ := m
    have hvalue := hmembers (name, value) List.mem_cons_self
    have hcomma : Scanner.step ⟨.between, ts⟩ ',' = some ⟨.between, .comma :: ts⟩ := rfl
    simp only [h.members_cons, memberTokens, List.cons_append, List.append_assoc,
      List.reverse_cons, List.reverse_append, List.nil_append]
    rw [scan_of_step hcomma, h.line_blank,
      h.scan_member hvalue name (h.endsNumber_members level ms),
      ih fun m hm => hmembers m (List.mem_cons_of_mem _ hm)]

/-- The scanner takes a printed value to its tokens, whatever stands behind it. -/
theorem scans (h : Prints chars items members line gap) {j : Json} (hj : Printable j)
    (level : Nat) : Scans (chars level j) (tokens j) := by
  induction hj generalizing level with
  | null => exact h.null level ▸ fun ts rest _ => rfl
  | bool b =>
    cases b
    · exact h.false level ▸ fun ts rest _ => rfl
    · exact h.true level ▸ fun ts rest _ => rfl
  | int n => exact h.num level _ ▸ fun ts rest hrest => scan_int n hrest
  | str text => exact h.str level _ ▸ fun ts rest _ => scan_quoted text
  | @arr js _ ih =>
    intro ts rest _
    cases js with
    | nil =>
      rw [h.arr_nil]
      rfl
    | cons j js =>
      have hitem := ih j List.mem_cons_self (level + 1)
      have hopen : Scanner.step ⟨.between, ts⟩ '[' = some ⟨.between, .openArray :: ts⟩ := rfl
      simp only [h.arr_cons, tokens, List.cons_append, List.append_assoc, List.reverse_cons,
        List.reverse_append, List.nil_append]
      rw [scan_of_step hopen, h.line_blank, hitem _ _ (h.endsNumber_items level js),
        h.scan_items fun j hj => ih j (List.mem_cons_of_mem _ hj) (level + 1)]
  | @obj ms _ ih =>
    intro ts rest _
    cases ms with
    | nil =>
      rw [h.obj_nil]
      rfl
    | cons m ms =>
      obtain ⟨name, value⟩ := m
      have hvalue := ih (name, value) List.mem_cons_self (level + 1)
      have hopen : Scanner.step ⟨.between, ts⟩ '\x7b' = some ⟨.between, .openObject :: ts⟩ := rfl
      simp only [h.obj_cons, tokens, List.cons_append, List.append_assoc, List.reverse_cons,
        List.reverse_append, List.nil_append]
      rw [scan_of_step hopen, h.line_blank,
        h.scan_member hvalue name (h.endsNumber_members level ms),
        h.scan_members fun m hm => ih m (List.mem_cons_of_mem _ hm) (level + 1)]

end Prints

theorem prints_pretty : Prints prettyChars prettyItems prettyMembers newLine [' '] where
  line_blank := blank_newLine
  line_ends _ _ _ _ := endsNumber_cons (by decide)
  gap_blank := blank_spaces 1
  null _ := rfl
  true _ := rfl
  false _ := rfl
  num _ _ := by rw [prettyChars]
  str _ _ := by rw [prettyChars]
  arr_nil _ := by rw [prettyChars]
  arr_cons _ _ _ := by rw [prettyChars]
  items_nil _ := by rw [prettyItems]
  items_cons _ _ _ := by rw [prettyItems]
  obj_nil _ := by rw [prettyChars]
  obj_cons _ _ _ _ := by
    simp only [prettyChars, List.cons_append, List.append_assoc, List.nil_append]
  members_nil _ := by rw [prettyMembers]
  members_cons _ _ _ _ := by
    simp only [prettyMembers, List.cons_append, List.append_assoc, List.nil_append]

/-- The whole text is the case of nothing behind the value. -/
theorem tokens?_of_scans {j : Json} {text : String} (h : Scans text.toList (tokens j)) :
    tokens? text.toList = some (tokens j) := by
  have hscan := h [] [] endsNumber_nil
  rw [List.append_nil, List.append_nil] at hscan
  refine Eq.trans hscan ?_
  show some (tokens j).reverse.reverse = _
  rw [List.reverse_reverse]

theorem tokens?_pretty {j : Json} (h : Printable j) :
    tokens? j.pretty.toList = some (tokens j) := by
  refine tokens?_of_scans ?_
  rw [pretty, String.toList_ofList]
  exact prints_pretty.scans h 0

end LeaseEscrow.Json
