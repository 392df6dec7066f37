import LeaseEscrow.Proofs.Registry.Listing
import LeaseEscrow.Proofs.Sample

/-!
# Pages

A page is a part of a listing and tells where the next part starts. Whoever asks for one page after
the other comes to an end, and the pages put together are the listing. Main statement
(`pages_visit_every_record`): so it is with the resources and the leases of every registry.
-/

namespace LeaseEscrow

/-- How many records a page has room for. -/
def PageRequest.size (request : PageRequest) : ℕ :=
  if request.limit = 0 then 100 else request.limit.toNat

theorem PageRequest.size_pos (request : PageRequest) : 0 < request.size := by
  unfold size
  split
  · decide
  · next hlimit =>
    refine Nat.pos_of_ne_zero fun hzero => hlimit ?_
    exact UInt64.toNat_inj.1 hzero

variable {α : Type}

/-! ## Single pages -/

namespace Page

variable (all : List α) (request : PageRequest)

theorem items_slice :
    (slice all request).items = (all.drop request.offset.toNat).take request.size := by
  have hlimit : (if request.limit = 0 then PageRequest.defaultLimit else request.limit).toNat =
      request.size := by
    unfold PageRequest.size
    split <;> rfl
  rw [slice, hlimit]

/-- The next page starts behind this one, if anything is left. A listing is no longer than the
largest word, so that the bound on the offset is not met before its end. -/
theorem nextOffset_slice (hall : all.length ≤ largestWord.toNat) :
    (slice all request).nextOffset =
      if request.offset.toNat + request.size < all.length then
        some (request.offset.toNat + request.size)
      else none := by
  have hitems := congrArg List.length (items_slice all request)
  rw [List.length_take, List.length_drop] at hitems
  have hnext : (slice all request).nextOffset =
      if min (request.offset.toNat + (slice all request).items.length) largestWord.toNat <
          all.length then
        some (min (request.offset.toNat + (slice all request).items.length) largestWord.toNat)
      else none := rfl
  have hsize := request.size_pos
  rw [hnext, hitems]
  split
  · rw [if_pos (by omega)]
    congr 1
    omega
  · rw [if_neg (by omega)]

end Page

/-! ## Going from page to page -/

variable {page : PageRequest → Except Refusal (Page α)} {limit offset : UInt64}

/-- The pages that are asked for, one after the other, from an offset on: each starts where the one
before it said, and the last one says that there is no other. -/
inductive Walk (page : PageRequest → Except Refusal (Page α)) (limit : UInt64) :
    UInt64 → List (Page α) → Prop where
  | last {offset : UInt64} {p : Page α} (hpage : page ⟨offset, limit⟩ = .ok p)
      (hend : p.nextOffset = none) : Walk page limit offset [p]
  | next {offset start : UInt64} {p : Page α} {rest : List (Page α)}
      (hpage : page ⟨offset, limit⟩ = .ok p) (hnext : p.nextOffset = some start.toNat)
      (hrest : Walk page limit start rest) : Walk page limit offset (p :: rest)

theorem Walk.unique {pages pages' : List (Page α)} (h : Walk page limit offset pages)
    (h' : Walk page limit offset pages') : pages = pages' := by
  induction h generalizing pages' with
  | last hpage hend =>
    cases h' with
    | last hpage' hend' =>
      cases hpage.symm.trans hpage'
      rfl
    | next hpage' hnext' hrest' =>
      cases hpage.symm.trans hpage'
      cases hend.symm.trans hnext'
  | next hpage hnext hrest ih =>
    cases h' with
    | last hpage' hend' =>
      cases hpage.symm.trans hpage'
      cases hend'.symm.trans hnext
    | next hpage' hnext' hrest' =>
      cases hpage.symm.trans hpage'
      obtain rfl := UInt64.toNat_inj.1 (Option.some.inj (hnext.symm.trans hnext'))
      rw [ih hrest']

theorem exists_toNat_eq {n : ℕ} (h : n ≤ largestWord.toNat) : ∃ word : UInt64, word.toNat = n := by
  rw [largestWord_toNat] at h
  exact ⟨.ofNat n, UInt64.toNat_ofNat_of_lt' (Nat.lt_succ_of_le h)⟩

/-- From every offset on the walk ends, and has visited the rest of the listing. -/
theorem exists_walk {all : List α} (hall : all.length ≤ largestWord.toNat)
    (hpage : ∀ request, page request = .ok (Page.slice all request)) (limit offset : UInt64) :
    ∃ pages, Walk page limit offset pages ∧
      pages.flatMap Page.items = all.drop offset.toNat ∧ ∀ p ∈ pages, p.total = all.length := by
  -- What is left of the listing gets less with every page.
  induction hleft : all.length - offset.toNat using Nat.strong_induction_on generalizing offset with
  | h left ih =>
    let request : PageRequest := ⟨offset, limit⟩
    have hsize : 0 < request.size := request.size_pos
    have hitems : (Page.slice all request).items = (all.drop offset.toNat).take request.size :=
      Page.items_slice all request
    have hnext : (Page.slice all request).nextOffset =
        if offset.toNat + request.size < all.length then some (offset.toNat + request.size)
        else none := Page.nextOffset_slice all request hall
    by_cases hmore : offset.toNat + request.size < all.length
    · rw [if_pos hmore] at hnext
      obtain ⟨start, hstart⟩ := exists_toNat_eq (hmore.le.trans hall)
      rw [← hstart] at hnext
      obtain ⟨rest, hwalk, hrest, htotal⟩ := ih (all.length - start.toNat) (by omega) start rfl
      refine ⟨_, .next (hpage request) hnext hwalk, ?_, List.forall_mem_cons.2 ⟨rfl, htotal⟩⟩
      rw [List.flatMap_cons, hrest, hitems, hstart, ← List.drop_drop, List.take_append_drop]
    · rw [if_neg hmore] at hnext
      refine ⟨_, .last (hpage request) hnext, ?_, List.forall_mem_singleton.2 rfl⟩
      rw [List.flatMap_singleton, hitems, List.take_of_length_le]
      rw [List.length_drop]
      omega

/-- Pages are parts of one listing, of which they tell the length, and whoever goes from the first
one to the next comes to an end and has seen the listing. -/
structure Paginates (page : PageRequest → Except Refusal (Page α)) (all : List α) : Prop where
  walk : ∀ limit, ∃ pages, Walk page limit 0 pages ∧
    (∀ pages', Walk page limit 0 pages' → pages' = pages) ∧
    pages.flatMap Page.items = all ∧ ∀ p ∈ pages, p.total = all.length
  part : ∀ request, ∃ p, page request = .ok p ∧
    p.items = (all.drop request.offset.toNat).take request.size ∧ p.total = all.length ∧
    (p.nextOffset = none ↔ all.drop (request.offset.toNat + request.size) = []) ∧
    ∀ next, p.nextOffset = some next → next = request.offset.toNat + request.size

theorem paginates_slice {all : List α} (hall : all.length ≤ largestWord.toNat)
    (hpage : ∀ request, page request = .ok (Page.slice all request)) : Paginates page all where
  walk limit := by
    obtain ⟨pages, hwalk, hitems, htotal⟩ := exists_walk hall hpage limit 0
    exact ⟨pages, hwalk, fun pages' h => h.unique hwalk, hitems, htotal⟩
  part request := by
    refine ⟨_, hpage request, Page.items_slice all request, rfl, ?_, fun next hnext => ?_⟩
    · rw [Page.nextOffset_slice all request hall, List.drop_eq_nil_iff]
      simp
    · rw [Page.nextOffset_slice all request hall] at hnext
      exact (Option.some.inj (Option.ite_none_right_eq_some.1 hnext).2).symm

/-! ## Pages of a registry -/

namespace Registry

theorem length_resourceList_le (r : Registry) : r.resourceList.length ≤ r.store.size :=
  List.length_filterMap_le ..

theorem length_leaseList_le (r : Registry) : r.leaseList.length ≤ r.store.size :=
  List.length_filterMap_le ..

/-- Whatever was done to a registry, its resources and its leases can be listed, each once and in the
order of the keys, and their pages are parts of these listings: from the first one on, with any
limit, the pages come to an end and put together are the listing. The store counts its entries in a
word. -/
theorem pages_visit_every_record (ops : List Operation)
    (hsize : (after ops).store.size ≤ largestWord.toNat) :
    let r := after ops
    (∃ resources, r.resources = .ok resources ∧ Ascending (resources.map Resource.id) ∧
      (∀ x, x ∈ resources ↔ r.resource x.id = .ok x) ∧ Paginates r.resourcePage resources) ∧
    ∃ leases, r.leases = .ok leases ∧ Ascending (leases.map Lease.resourceId) ∧
      (∀ l, l ∈ leases ↔ r.lease l.resourceId = .ok l) ∧ Paginates r.leasePage leases := by
  intro r
  have hl : r.Laid := (wellFiled_after ops).filed.laid
  refine ⟨⟨r.resourceList, resources_eq hl, hl.ascending_resourceIds, fun x => ?_, ?_⟩,
    r.leaseList, leases_eq hl, hl.ascending_leaseIds, fun l => ?_, ?_⟩
  · rw [resource_eq_ok hl]
    exact (isTable_resources hl).mem_iff x
  · exact paginates_slice (r.length_resourceList_le.trans hsize) (resourcePage_eq hl)
  · rw [lease_eq_ok hl]
    exact (isTable_leases hl).mem_iff l
  · exact paginates_slice (r.length_leaseList_le.trans hsize) (leasePage_eq hl)

/-- Two nodes, the later one stored first, on pages of one node each. -/
theorem two_nodes_take_two_pages :
    let earlier := Sample.activeNode Sample.nodeId false
    let later := Sample.activeNode Sample.laterId false
    let r := after [.setResource later, .setResource earlier]
    r.store.size ≤ largestWord.toNat ∧ r.resources = .ok [earlier, later] ∧
      ∃ pages, Walk r.resourcePage 1 0 pages ∧ pages.map Page.items = [[earlier], [later]] ∧
        pages.flatMap Page.items = [earlier, later] := by
  intro earlier later r
  have hsize : r.store.size ≤ largestWord.toNat := by decide +kernel
  have hlisted : r.resources = .ok [earlier, later] := by decide +kernel
  obtain ⟨⟨resources, hresources, -, -, hpages⟩, -⟩ := pages_visit_every_record _ hsize
  cases hlisted.symm.trans hresources
  obtain ⟨pages, hwalk, hunique, hitems, -⟩ := hpages.walk 1
  have hlast : Walk r.resourcePage 1 1 [⟨[later], 2, none⟩] := .last (by decide +kernel) rfl
  have hboth : Walk r.resourcePage 1 0 [⟨[earlier], 2, some 1⟩, ⟨[later], 2, none⟩] :=
    Walk.next (by decide +kernel) (by rfl) hlast
  refine ⟨hsize, hlisted, pages, hwalk, ?_, hitems⟩
  rw [← hunique _ hboth]
  rfl

end Registry

end LeaseEscrow
