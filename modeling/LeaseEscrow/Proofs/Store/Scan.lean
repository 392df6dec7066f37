import LeaseEscrow.Store.Basic
import LeaseEscrow.Store.OrderedMap.Lookup

/-!
# Scanning the store

A scan stops at the first key that does not begin with what it looks for. Keys are in ascending
order, those with a common beginning stand together, and so it finds all of them
(`scan_eq_filter`). Main statement (`scan_is_complete`): what stands before the scan is below the
beginning, and what stands behind it does not begin so.
-/

namespace LeaseEscrow

/-! ## Keys with a common beginning -/

namespace Key

theorem compare_cons (a b : UInt8) (as bs : Bytes) :
    compare (a :: as) (b :: bs) = (compare a b).then (compare as bs) :=
  List.compare_cons_cons

theorem compare_append_left (start key key' : Bytes) :
    compare (start ++ key) (start ++ key') = compare key key' := by
  induction start with
  | nil => rfl
  | cons a start ih =>
    rw [List.cons_append, List.cons_append, compare_cons, ih]
    simp

/-- Keys are compared byte by byte, as in a dictionary. -/
theorem compare_eq_lt_iff {key key' : Bytes} : compare key key' = .lt ↔ key < key' := by
  induction key generalizing key' with
  | nil =>
    cases key' with
    | nil => simp
    | cons b key' => simp [List.compare_nil_cons]
  | cons a key ih =>
    cases key' with
    | nil => simp [List.compare_cons_nil]
    | cons b key' =>
      rw [compare_cons, Ordering.then_eq_lt, Std.compare_eq_lt, Std.LawfulEqCmp.compare_eq_iff_eq, ih,
        List.cons_lt_cons_iff]

/-- What begins with `start` is not below it. -/
theorem not_lt_of_isPrefixOf {start key : Bytes} (h : start.isPrefixOf key = true) :
    compare key start ≠ .lt := by
  induction start generalizing key with
  | nil => cases key <;> simp [List.compare_cons_nil]
  | cons s start ih =>
    cases key with
    | nil => cases h
    | cons a key =>
      rw [List.isPrefixOf_cons_cons, Bool.and_eq_true, beq_iff_eq] at h
      rw [compare_cons, ← h.1]
      simpa using ih h.2

/-- Between `start` and a key that begins with it all keys begin with it. -/
theorem isPrefixOf_of_between {start key key' : Bytes} (h : start.isPrefixOf key' = true)
    (hstart : compare key start ≠ .lt) (hkey : compare key key' = .lt) :
    start.isPrefixOf key = true := by
  induction start generalizing key key' with
  | nil => rfl
  | cons s start ih =>
    cases key with
    | nil => exact absurd List.compare_nil_cons hstart
    | cons a key =>
      cases key' with
      | nil => cases h
      | cons b key' =>
        rw [List.isPrefixOf_cons_cons, Bool.and_eq_true, beq_iff_eq] at h
        obtain ⟨rfl, h⟩ := h
        rw [compare_cons] at hstart hkey
        -- The first bytes are equal: a smaller one puts `key` below `start`, a greater one above `key'`.
        cases has : compare a s with
        | lt =>
          rw [has] at hstart
          exact absurd rfl hstart
        | gt =>
          rw [has] at hkey
          cases hkey
        | eq =>
          rw [has] at hstart hkey
          rw [List.isPrefixOf_cons_cons, Bool.and_eq_true, beq_iff_eq]
          exact ⟨(Std.LawfulEqCmp.eq_of_compare has).symm, ih h hstart hkey⟩

end Key

/-! ## Scans -/

namespace Store

variable {α : Type}

theorem takeWhile_eq_filter {start : Bytes} {l : List (Bytes × α)}
    (ascending : l.Pairwise fun a b => compare a.1 b.1 = .lt)
    (above : ∀ e ∈ l, compare e.1 start ≠ .lt) :
    l.takeWhile (fun e => start.isPrefixOf e.1) = l.filter fun e => start.isPrefixOf e.1 := by
  induction l with
  | nil => rfl
  | cons e l ih =>
    rw [List.pairwise_cons] at ascending
    by_cases he : start.isPrefixOf e.1 = true
    · rw [List.takeWhile_cons, if_pos he, List.filter_cons, if_pos he,
        ih ascending.2 fun e he => above e (List.mem_cons_of_mem _ he)]
    · have hrest : l.filter (fun e => start.isPrefixOf e.1) = [] := by
        rw [List.filter_eq_nil_iff]
        intro e' hmem hprefix
        exact he (Key.isPrefixOf_of_between hprefix (above e List.mem_cons_self)
          (ascending.1 e' hmem))
      rw [List.takeWhile_cons, if_neg he, List.filter_cons, if_neg he, hrest]

/-- Behind the first key that is not below `start` no key is. -/
theorem not_lt_of_mem_dropWhile {start : Bytes} {l : List (Bytes × α)}
    (ascending : l.Pairwise fun a b => compare a.1 b.1 = .lt) {e : Bytes × α}
    (he : e ∈ l.dropWhile fun e => compare e.1 start == .lt) : compare e.1 start ≠ .lt := by
  induction l with
  | nil => cases he
  | cons a l ih =>
    by_cases ha : compare a.1 start = .lt
    · rw [List.dropWhile_cons, if_pos (beq_iff_eq.2 ha)] at he
      exact ih ascending.of_cons he
    · rw [List.dropWhile_cons, if_neg fun h => ha (beq_iff_eq.1 h)] at he
      rcases List.mem_cons.1 he with rfl | he
      · exact ha
      · intro hlt
        exact ha (Std.TransCmp.lt_trans (List.rel_of_pairwise_cons ascending he) hlt)

variable (s : Store α) (start : Bytes)

theorem ascending_entries : s.entries.Pairwise fun a b => compare a.1 b.1 = .lt :=
  s.current.ascending

/-- A scan finds every entry whose key begins with `start`. -/
theorem scan_eq_filter : s.scan start = s.entries.filter fun e => start.isPrefixOf e.1 := by
  have hbelow : (s.entries.takeWhile fun e => compare e.1 start == .lt).filter
      (fun e => start.isPrefixOf e.1) = [] := by
    rw [List.filter_eq_nil_iff]
    intro e he hprefix
    exact Key.not_lt_of_isPrefixOf hprefix (beq_iff_eq.1 (List.all_eq_true.1 List.all_takeWhile e he))
  have hscan : s.scan start = (s.entries.dropWhile fun e => compare e.1 start == .lt).filter
      fun e => start.isPrefixOf e.1 :=
    takeWhile_eq_filter (s.ascending_entries.sublist (List.dropWhile_sublist _)) fun _ =>
      not_lt_of_mem_dropWhile s.ascending_entries
  calc s.scan start
    _ = [] ++ s.scan start := rfl
    _ = _ := by rw [← hbelow, hscan, ← List.filter_append, List.takeWhile_append_dropWhile]

/-- The entries that a scan finds stand together, behind all that are below `start`. -/
theorem exists_entries_eq :
    ∃ below above, s.entries = below ++ s.scan start ++ above ∧
      (∀ e ∈ below, compare e.1 start = .lt) ∧ ∀ e ∈ above, compare e.1 start ≠ .lt := by
  refine ⟨s.entries.takeWhile fun e => compare e.1 start == .lt,
    (s.entries.dropWhile fun e => compare e.1 start == .lt).dropWhile fun e =>
      start.isPrefixOf e.1, ?_, fun e he => ?_, fun e he => ?_⟩
  · rw [List.append_assoc, scan, List.takeWhile_append_dropWhile, List.takeWhile_append_dropWhile]
  · exact beq_iff_eq.1 (List.all_eq_true.1 List.all_takeWhile e he)
  · exact not_lt_of_mem_dropWhile s.ascending_entries ((List.dropWhile_sublist _).mem he)

/-- A scan gives exactly the entries whose keys begin with `start`, in strictly ascending order of
their keys and so each once. These are an interval of the store: before it all keys are smaller than
`start`, and behind it they are greater and none of them begins with it. -/
theorem scan_is_complete :
    (∀ key value, (key, value) ∈ s.scan start ↔ s.get? key = some value ∧ start <+: key) ∧
    (s.scan start).Pairwise (fun a b => a.1 < b.1) ∧
    ∃ below above, s.entries = below ++ s.scan start ++ above ∧
      (∀ e ∈ below, e.1 < start) ∧ ∀ e ∈ above, start < e.1 ∧ ¬ start <+: e.1 := by
  refine ⟨fun key value => ?_, ?_, ?_⟩
  · rw [scan_eq_filter, List.mem_filter, List.isPrefixOf_iff_prefix]
    exact and_congr_left fun _ => (s.current.get?_eq_some_iff key value).symm
  · rw [scan_eq_filter]
    exact (s.ascending_entries.filter _).imp fun hlt => Key.compare_eq_lt_iff.1 hlt
  · obtain ⟨below, above, hentries, hbelow, habove⟩ := s.exists_entries_eq start
    refine ⟨below, above, hentries, fun e he => Key.compare_eq_lt_iff.1 (hbelow e he),
      fun e he => ?_⟩
    have hprefix : ¬ start <+: e.1 := by
      intro hprefix
      -- Then the scan would have found it, and it would stand in the store twice.
      have hfound : e ∈ s.scan start := by
        rw [scan_eq_filter, List.mem_filter, hentries]
        exact ⟨List.mem_append_right _ he, List.isPrefixOf_iff_prefix.2 hprefix⟩
      have hascending := s.ascending_entries
      rw [hentries, List.pairwise_append] at hascending
      have hlt := hascending.2.2 e (List.mem_append_right _ hfound) e he
      simp at hlt
    refine ⟨Key.compare_eq_lt_iff.1 ?_, hprefix⟩
    cases hcompare : compare start e.1 with
    | lt => rfl
    | eq => exact absurd (Std.LawfulEqCmp.eq_of_compare hcompare ▸ List.prefix_rfl) hprefix
    | gt => exact absurd (Std.OrientedCmp.lt_of_gt hcompare) (habove e he)

/-- Nothing is above the keys that begin with the greatest byte, and all keys begin with no byte. -/
theorem scan_of_greatest_byte :
    let s : Store String :=
      ((((Store.empty.set [255, 255] "a").set [254, 255] "b").set [255] "c").set [255, 0, 7] "d").set
        [] "e"
    s.scan [255] = [([255], "c"), ([255, 0, 7], "d"), ([255, 255], "a")] ∧
      s.entries = [([], "e"), ([254, 255], "b")] ++ s.scan [255] ∧ s.scan [] = s.entries := by
  intro s
  have hscan : s.scan [255] = [([255], "c"), ([255, 0, 7], "d"), ([255, 255], "a")] := by
    decide +kernel
  obtain ⟨-, -, below, above, hentries, hbelow, habove⟩ := s.scan_is_complete []
  have hnone : below = [] := List.eq_nil_iff_forall_not_mem.2 fun e he =>
    List.not_lt_nil e.1 (hbelow e he)
  have hnone' : above = [] := List.eq_nil_iff_forall_not_mem.2 fun e he =>
    (habove e he).2 List.nil_prefix
  refine ⟨hscan, by decide +kernel, ?_⟩
  rw [hentries, hnone, hnone', List.nil_append, List.append_nil]

end Store

end LeaseEscrow
