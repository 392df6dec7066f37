import LeaseEscrow.Codec.Amounts
import LeaseEscrow.Proofs.Decimal.Text
import LeaseEscrow.Proofs.Ident.Grammar
import LeaseEscrow.Proofs.Json.Read
import LeaseEscrow.Proofs.Time.Text

/-!
# Values that read back

A value is written as JSON and read as a value again, mostly as itself; decimals and what holds
them read as their plain form. Each basic type has one instance of this law, and a record reads
back when its fields do (`fields?_record`).
-/

namespace LeaseEscrow.Json

/-- A codec that writes what can be printed, and reads it as the value in its plain form. -/
class LawfulCodec (α : Type) [Codec α] where
  plain : α → α
  printable : ∀ a : α, Printable (encode a)
  decode_encode : ∀ a : α, decode? (encode a) = some (plain a)

attribute [simp] LawfulCodec.printable LawfulCodec.decode_encode

export LawfulCodec (plain)

@[simp]
theorem required_encode {α : Type} [Codec α] [LawfulCodec α] (a : α) :
    required (some (encode a)) = some (plain a) := LawfulCodec.decode_encode a

@[simp]
theorem optionally_encode {α : Type} [Codec α] [LawfulCodec (Option α)] (a : Option α) :
    optionally (some (encode a)) = some (plain a) := LawfulCodec.decode_encode a

/-! ## Basic types -/

instance : LawfulCodec String := ⟨id, .str, fun _ => rfl⟩

instance : LawfulCodec Bool := ⟨id, .bool, fun _ => rfl⟩

theorem natBelow?_nat {bound n : Nat} (h : n < bound) : natBelow? bound (.nat n) = some n := by
  show (if (0 : Int) ≤ n ∧ (n : Int) < bound then some (n : Int).toNat else none) = _
  rw [if_pos ⟨Int.natCast_nonneg n, Int.ofNat_lt.2 h⟩, Int.toNat_natCast]

instance : LawfulCodec UInt64 where
  plain := id
  printable _ := .int _
  decode_encode n := by
    show (natBelow? UInt64.size (.nat n.toNat)).map UInt64.ofNat = _
    rw [natBelow?_nat n.toNat_lt, Option.map_some, UInt64.ofNat_toNat, id]

instance : LawfulCodec UInt32 where
  plain := id
  printable _ := .int _
  decode_encode n := by
    show (natBelow? UInt32.size (.nat n.toNat)).map UInt32.ofNat = _
    rw [natBelow?_nat n.toNat_lt, Option.map_some, UInt32.ofNat_toNat, id]

instance : LawfulCodec Decimal := ⟨Decimal.plain, fun _ => .str _, Decimal.ofText?_toText⟩

instance : LawfulCodec Instant := ⟨id, fun _ => .str _, Instant.ofText?_toText⟩

instance : LawfulCodec ResourceId := ⟨id, fun _ => .str _, fun id => dif_pos id.valid⟩

/-- An instant is a text, and so it is told from an absent one. -/
instance : LawfulCodec (Option Instant) where
  plain := id
  printable
    | none => .null
    | some _ => .str _
  decode_encode
    | none => rfl
    | some t => congrArg (Option.map some) (Instant.ofText?_toText t)

instance {α : Type} [Codec α] [LawfulCodec α] : LawfulCodec (List α) where
  plain := List.map plain
  printable l := by
    refine .arr fun j hj => ?_
    obtain ⟨a, -, rfl⟩ := List.mem_map.1 hj
    exact LawfulCodec.printable a
  decode_encode l := by
    show (l.map encode).mapM decode? = _
    induction l with
    | nil => rfl
    | cons a l ih =>
      rw [List.map_cons, List.mapM_cons, LawfulCodec.decode_encode, ih]
      rfl

/-! ## Accounts -/

instance : LawfulCodec Account where
  plain := id
  printable _ := .str _
  decode_encode a := by
    show (Account.parse a.text).toOption = _
    rw [Account.parse_text]
    rfl

/-! ## Records -/

theorem lookup_zip {names : List String} {values : List Json} (hnames : names.Nodup)
    (hlength : names.length = values.length) :
    names.map (List.lookup · (names.zip values)) = values.map some := by
  induction names generalizing values with
  | nil =>
    cases values with
    | nil => rfl
    | cons value values => cases hlength
  | cons name names ih =>
    cases values with
    | nil => cases hlength
    | cons value values =>
      obtain ⟨hname, hnames⟩ := List.nodup_cons.1 hnames
      have hrest : names.map (List.lookup · ((name :: names).zip (value :: values))) =
          names.map (List.lookup · (names.zip values)) := by
        refine List.map_congr_left fun other hother => ?_
        have hne : other ≠ name := fun h => hname (h ▸ hother)
        rw [List.zip_cons_cons, List.lookup_cons, beq_eq_false_iff_ne.2 hne]
      rw [List.map_cons, hrest, ih hnames (Nat.succ.inj hlength), List.zip_cons_cons,
        List.lookup_cons_self, List.map_cons]

/-- A record is read field by field. -/
theorem fields?_record {names : List String} {values : List Json} (hnames : names.Nodup)
    (hlength : names.length = values.length) :
    fields? names (record names values) = some (values.map some) := by
  have hknown : (names.zip values).filter (fun m => names.contains m.1) = names.zip values := by
    refine List.filter_eq_self.2 fun m hm => ?_
    exact List.contains_iff_mem.2 (List.of_mem_zip hm).1
  have hmembers : ((names.zip values).map Prod.fst).Nodup := by
    rwa [List.map_fst_zip (Nat.le_of_eq hlength)]
  rw [record, fields?, hknown]
  simp only [if_pos hmembers, lookup_zip hnames hlength]

theorem fields?_record_bind {α : Type} {names : List String} {values : List Json}
    (hnames : names.Nodup) (hlength : names.length = values.length)
    (build : List (Option Json) → Option α) :
    (fields? names (record names values) >>= build) = build (values.map some) := by
  rw [fields?_record hnames hlength]
  rfl

theorem printable_record {names : List String} {values : List Json}
    (h : ∀ j ∈ values, Printable j) : Printable (record names values) :=
  .obj fun _ hm => h _ (List.of_mem_zip hm).2

end LeaseEscrow.Json
