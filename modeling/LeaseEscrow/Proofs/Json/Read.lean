import LeaseEscrow.Json.Reader
import LeaseEscrow.Proofs.Json.Scan

/-!
# Reading printed values

The reader takes the tokens of a value back to the value, whatever is open around it. With the
scanner before it, it reads what was printed (`ofText?_pretty`, `ofText?_compact`).
-/

namespace LeaseEscrow.Json

/-- The reader after these tokens, from some state. -/
def readFrom (r : Reader) (ts : List Token) : Option Reader := ts.foldlM Reader.step r

theorem readFrom_of_step {r r' : Reader} {t : Token} (h : r.step t = some r') (ts : List Token) :
    readFrom r (t :: ts) = readFrom r' ts := by
  rw [readFrom, List.foldlM_cons, h]
  rfl

/-- Wherever a value is due, the reader takes these tokens to this one. -/
def Reads (us : List Token) (j : Json) : Prop :=
  ∀ stack rest, readFrom (.value stack) (us ++ rest) = readFrom (.complete j stack) rest

variable {rest : List Token}

theorem tokens_ne_nil (j : Json) : ∃ t ts, tokens j = t :: ts ∧ t ≠ .closeArray := by
  unfold tokens
  split <;> exact ⟨_, _, rfl, nofun⟩

/-- The first item of an array is read as any other. -/
theorem readFrom_firstItem (j : Json) (stack : List Frame) :
    readFrom (.firstItem stack) (tokens j ++ rest) =
      readFrom (.value (.array [] :: stack)) (tokens j ++ rest) := by
  obtain ⟨t, ts, htokens, hclose⟩ := tokens_ne_nil j
  have hstep : Reader.step (.firstItem stack) t = Reader.step (.value (.array [] :: stack)) t := by
    cases t <;> first | rfl | exact absurd rfl hclose
  rw [htokens, List.cons_append, readFrom, readFrom, List.foldlM_cons, List.foldlM_cons, hstep]

theorem readFrom_items {items : List Json} (hitems : ∀ j ∈ items, Reads (tokens j) j)
    (earlier : List Json) (stack : List Frame) :
    readFrom (.afterItem earlier stack) (itemTokens items ++ rest) =
      readFrom (.complete (.arr (earlier.reverse ++ items)) stack) rest := by
  induction items generalizing earlier with
  | nil =>
    rw [List.append_nil]
    rfl
  | cons item items ih =>
    have hitem := hitems item List.mem_cons_self (.array earlier :: stack)
    simp only [itemTokens, List.cons_append, List.append_assoc]
    rw [readFrom_of_step rfl, hitem]
    refine (ih (fun j hj => hitems j (List.mem_cons_of_mem _ hj)) (item :: earlier)).trans ?_
    rw [List.reverse_cons, List.append_assoc, List.singleton_append]

/-- Members as the reader keeps them. -/
def named (members : List (String × Json)) : List (Option String × Json) :=
  members.map fun m => (some m.1, m.2)

theorem ofMembers_named (members : List (String × Json)) :
    ofMembers (named members) = .obj members := by
  have hnames : (named members).mapM (fun m => m.1.map (·, m.2)) = some members := by
    induction members with
    | nil => rfl
    | cons m members ih =>
      rw [named, List.map_cons, List.mapM_cons]
      show Option.bind (List.mapM _ (named members)) _ = _
      rw [ih]
      rfl
  unfold ofMembers
  split
  · next read hread => rw [Option.some.inj (hread.symm.trans hnames)]
  · next hread => cases hread.symm.trans hnames

/-- A member after its name: the colon and the value. -/
theorem readFrom_member {us : List Token} {value : Json} (h : Reads us value) (name : String)
    (earlier : List (String × Json)) (stack : List Frame) :
    readFrom (.colon (named earlier).reverse (some name) stack) (.colon :: (us ++ rest)) =
      readFrom (.afterMember (named (earlier ++ [(name, value)])).reverse stack) rest := by
  have hmembers : (named (earlier ++ [(name, value)])).reverse =
      (some name, value) :: (named earlier).reverse := by
    rw [named, List.map_append, List.reverse_append]
    rfl
  rw [readFrom_of_step rfl, h, hmembers]
  rfl

theorem readFrom_members {members : List (String × Json)}
    (hmembers : ∀ m ∈ members, Reads (tokens m.2) m.2) (earlier : List (String × Json))
    (stack : List Frame) :
    readFrom (.afterMember (named earlier).reverse stack) (memberTokens members ++ rest) =
      readFrom (.complete (.obj (earlier ++ members)) stack) rest := by
  induction members generalizing earlier with
  | nil =>
    have hclose : Reader.step (.afterMember (named earlier).reverse stack) .closeObject =
        some (.complete (.obj earlier) stack) := by
      rw [Reader.step, List.reverse_reverse, ofMembers_named]
    rw [List.append_nil]
    exact readFrom_of_step hclose rest
  | cons m members ih =>
    obtain ⟨name, value⟩ := m
    have hvalue := hmembers (name, value) List.mem_cons_self
    simp only [memberTokens, List.cons_append, List.append_assoc]
    rw [readFrom_of_step rfl, readFrom_of_step rfl, readFrom_member hvalue,
      ih fun m hm => hmembers m (List.mem_cons_of_mem _ hm), List.append_assoc,
      List.singleton_append]

/-- The reader takes the tokens of a value to the value, whatever is open around it. -/
theorem reads_tokens {j : Json} (h : Printable j) : Reads (tokens j) j := by
  induction h with
  | null => exact fun stack rest => rfl
  | bool b => exact fun stack rest => rfl
  | int n => exact fun stack rest => rfl
  | str text => exact fun stack rest => rfl
  | @arr items _ ih =>
    intro stack rest
    cases items with
    | nil => rfl
    | cons item items =>
      simp only [tokens, List.cons_append, List.append_assoc]
      rw [readFrom_of_step rfl, readFrom_firstItem, ih item List.mem_cons_self]
      exact readFrom_items (fun j hj => ih j (List.mem_cons_of_mem _ hj)) [item] stack
  | @obj members _ ih =>
    intro stack rest
    cases members with
    | nil => rfl
    | cons member members =>
      obtain ⟨name, value⟩ := member
      have hvalue := ih (name, value) List.mem_cons_self
      simp only [tokens, List.cons_append, List.append_assoc]
      rw [readFrom_of_step rfl, readFrom_of_step rfl]
      refine (readFrom_member hvalue name [] stack).trans ?_
      rw [readFrom_members fun m hm => ih m (List.mem_cons_of_mem _ hm)]
      rfl

/-- A text that is scanned as the tokens of a value reads as the value. -/
theorem ofText?_of_tokens {j : Json} {text : String} (h : Printable j)
    (htokens : tokens? text.toList = some (tokens j)) : ofText? text = some j := by
  have hread := reads_tokens h [] []
  rw [List.append_nil] at hread
  rw [ofText?, htokens]
  show ofTokens? (tokens j) = _
  rw [ofTokens?, show (tokens j).foldlM Reader.step (.value []) = some (.done j) from hread]

/-- What was printed reads back. -/
theorem ofText?_pretty {j : Json} (h : Printable j) : ofText? j.pretty = some j :=
  ofText?_of_tokens h (tokens?_pretty h)

end LeaseEscrow.Json
