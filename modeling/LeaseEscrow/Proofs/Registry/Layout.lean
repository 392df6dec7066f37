import LeaseEscrow.Proofs.Ident.Grammar
import LeaseEscrow.Proofs.Registry.Index

/-!
# The layout of keys

A key is made of the name of what is stored under it, and tells that name. Main statement
(`layout_is_unambiguous`): keys of different names are different, a key begins with the byte of its
own kind only, and among the index keys those of one account are told from all others by what they
begin with, since neither addresses nor resource ids hold the separator.
-/

namespace LeaseEscrow.Key

/-! ## Kinds of keys -/

inductive Kind where
  | resource
  | lease
  | counter
  | params
  | index (i : Index)
deriving DecidableEq

/-- The byte that the keys of a kind begin with. -/
def Kind.byte : Kind → UInt8
  | resource => resourceKind
  | lease => leaseKind
  | counter => counterKind
  | params => paramsKind
  | index i => i.kind

def Kind.ofByte? : UInt8 → Option Kind
  | 1 => some resource
  | 2 => some lease
  | 3 => some counter
  | 4 => some params
  | 5 => some (index .owner)
  | 6 => some (index .lessee)
  | _ => none

theorem Kind.ofByte?_byte (k : Kind) : ofByte? k.byte = some k := by
  cases k with
  | index i => cases i <;> rfl
  | _ => rfl

theorem Kind.byte_injective : Function.Injective Kind.byte := by
  intro k k' h
  have hread := congrArg ofByte? h
  rw [ofByte?_byte, ofByte?_byte] at hread
  exact Option.some.inj hread

/-! ## Names -/

/-- What is stored under a key. -/
inductive Name where
  | resource (id : ResourceId)
  | lease (id : ResourceId)
  | counter
  | params
  | entry (i : Index) (a : Account) (id : ResourceId)
deriving DecidableEq

namespace Name

def kind : Name → Kind
  | resource _ => .resource
  | lease _ => .lease
  | counter => .counter
  | params => .params
  | entry i _ _ => .index i

def key : Name → Bytes
  | resource id => Key.resource id
  | lease id => Key.lease id
  | counter => Key.counter
  | params => Key.params
  | entry i a id => Key.entry i a id

/-- What follows the byte of the kind. -/
def rest : Name → Bytes
  | resource id => id.bytes
  | lease id => id.bytes
  | counter => []
  | params => []
  | entry _ a id => a.bytes ++ separator :: id.bytes

theorem key_eq (n : Name) : n.key = n.kind.byte :: n.rest := by
  cases n with
  | entry i a id => exact entry_eq i a id
  | _ => rfl

theorem byte_prefix_iff {k : Kind} {n : Name} : [k.byte] <+: n.key ↔ n.kind = k := by
  rw [key_eq, List.cons_prefix_cons]
  simp [Kind.byte_injective.eq_iff, eq_comm]

theorem key_injective : Function.Injective key := by
  intro n n' h
  have hparts := h
  rw [key_eq, key_eq, List.cons.injEq, Kind.byte_injective.eq_iff] at hparts
  obtain ⟨hkind, hrest⟩ := hparts
  cases n with
  | resource id =>
    cases n' with
    | resource id' => rw [ResourceId.bytes_inj.1 hrest]
    | _ => cases hkind
  | lease id =>
    cases n' with
    | lease id' => rw [ResourceId.bytes_inj.1 hrest]
    | _ => cases hkind
  | counter =>
    cases n' with
    | counter => rfl
    | _ => cases hkind
  | params =>
    cases n' with
    | params => rfl
    | _ => cases hkind
  | entry i a id =>
    cases n' with
    | entry j a' id' =>
      obtain ⟨rfl, rfl, rfl⟩ := entry_inj.1 h
      rfl
    | _ => cases hkind

end Name

/-! ## Index keys -/

theorem account_prefix_entry {i j : Index} {a a' : Account} {id : ResourceId} :
    account i a <+: entry j a' id ↔ i = j ∧ a = a' := by
  rw [← List.isPrefixOf_iff_prefix]
  exact account_isPrefixOf_entry

/-- Below the beginning of an account there are its own entries only. -/
theorem account_prefix_iff {i : Index} {a : Account} {n : Name} :
    account i a <+: n.key ↔ ∃ id, n = .entry i a id := by
  constructor
  · intro h
    have hkind : n.kind = .index i := by
      rw [← Name.byte_prefix_iff]
      exact List.IsPrefix.trans ⟨a.bytes ++ [separator], rfl⟩ h
    cases n with
    | entry j a' id =>
      obtain ⟨rfl, rfl⟩ := account_prefix_entry.1 h
      exact ⟨id, rfl⟩
    | _ => cases hkind
  · rintro ⟨id, rfl⟩
    exact account_prefix_entry.2 ⟨rfl, rfl⟩

/-- Behind the beginning of an account an entry goes on with its id. -/
theorem ofBytes?_drop_entry (i : Index) (a : Account) (id : ResourceId) :
    ResourceId.ofBytes? ((entry i a id).drop (account i a).length) = some id := by
  rw [entry, List.drop_left, ResourceId.ofBytes?_bytes]

/-- Exactly the texts of two parts with a separator between them are read as addresses, and the parts
of an address are determined; exactly the texts that are spelled as resource ids are read as such.
So a key tells what it names: an entry lies below an account when it is an entry of that account,
what follows there reads as its id, different names have different keys, and no key lies below the
byte of another kind. -/
theorem layout_is_unambiguous :
    (∀ text, (∃ a, Account.parse text = .ok a) ↔
      ∃ tag data, Account.Parts tag data ∧ text.toList = tag ++ '1' :: data) ∧
    (∀ tag data tag' data', Account.Parts tag data → Account.Parts tag' data' →
      tag ++ '1' :: data = tag' ++ '1' :: data' → tag = tag' ∧ data = data') ∧
    (∀ text a, Account.parse text = .ok a ↔ a.text = text) ∧
    (∀ text, (∃ id, ResourceId.parse text = .ok id) ↔ ResourceId.Spelled text.toList) ∧
    (∀ text id, ResourceId.parse text = .ok id ↔ id.text = text) ∧
    (∀ i j a b id, account i a <+: entry j b id ↔ i = j ∧ a = b) ∧
    (∀ i a id, ResourceId.ofBytes? ((entry i a id).drop (account i a).length) = some id) ∧
    Function.Injective Name.key ∧
    (∀ (k : Kind) (n : Name), [k.byte] <+: n.key ↔ n.kind = k) ∧
    ∀ i a (n : Name), account i a <+: n.key ↔ ∃ id, n = .entry i a id := by
  refine ⟨?_, ?_, ?_, ?_, ?_, ?_, ?_, Name.key_injective, ?_, ?_⟩
  · exact fun text => Account.exists_parse_iff
  · exact fun tag data tag' data' h h' => h.unique h'
  · exact fun text a => Account.parse_eq_ok_iff
  · exact fun text => ResourceId.exists_parse_iff
  · exact fun text id => ResourceId.parse_eq_ok_iff
  · exact fun i j a b id => account_prefix_entry
  · exact ofBytes?_drop_entry
  · exact fun k n => Name.byte_prefix_iff
  · exact fun i a n => account_prefix_iff

/-- One address begins with the other, and both have more of the separating digit in their data. The
first of these digits separates, and no entry of the one account lies below the other. -/
theorem longer_address_is_told_apart :
    let shorter : Account := ⟨"mn111111111", by decide⟩
    let longer : Account := ⟨"mn1111111111", by decide⟩
    shorter.bytes <+: longer.bytes ∧
      (∀ tag data, Account.Parts tag data → shorter.text.toList = tag ++ '1' :: data →
        tag = ['m', 'n']) ∧
      ∀ i id id', ¬ account i shorter <+: entry i longer id ∧
        entry i shorter id ≠ entry i longer id' := by
  intro shorter longer
  obtain ⟨-, hunique, -, -, -, hbegins, -, hinjective, -, -⟩ := layout_is_unambiguous
  have hne : shorter ≠ longer := by decide
  refine ⟨by decide +kernel, fun tag data hparts htext => ?_, fun i id id' => ⟨fun hbelow => ?_,
    fun hsame => ?_⟩⟩
  · have hmn : Account.Parts ['m', 'n'] (List.replicate 8 '1') :=
      Account.parts_iff.1 (by decide)
    exact (hunique tag data _ _ hparts hmn (htext.symm.trans (by decide))).1
  · exact hne ((hbegins i i shorter longer id).1 hbelow).2
  · have hnames : Name.entry i shorter id = Name.entry i longer id' := hinjective hsame
    exact hne (Name.entry.inj hnames).2.1

end LeaseEscrow.Key
