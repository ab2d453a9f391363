import Mathlib
import SpinHub.Document.Reader
import SpinHub.Document.Writer
import SpinHub.Proofs.JsonText

/-!
# Documents that are read back

A reader gives up where lists and objects are nested deeper than the levels it has left, so
`ReadsBack` asks for as many levels as the document is deep. Each shape of a document, a
record, an alternative or a list, is read back if its contents are.
-/

namespace SpinHub

namespace Json

/-! ### Depth -/

mutual

/-- How deep lists and objects are nested in a value. -/
def depth : Json → Nat
  | .list items => itemDepth items + 1
  | .object fields => fieldDepth fields + 1
  | .null | .bool _ | .number _ | .text _ => 0

/-- How deep lists and objects are nested in the items of a list. -/
def itemDepth : List Json → Nat
  | [] => 0
  | item :: items => max item.depth (itemDepth items)

/-- How deep lists and objects are nested in the fields of an object. -/
def fieldDepth : List (JsonText × Json) → Nat
  | [] => 0
  | (_, value) :: fields => max value.depth (fieldDepth fields)

end

/-- Items are as deep as the deepest of them. -/
theorem itemDepth_le {items : List Json} {levels : Nat} :
  itemDepth items ≤ levels ↔ ∀ item ∈ items, item.depth ≤ levels
  := by
  induction items with
  | nil => simp [itemDepth]
  | cons item items ih => simp [itemDepth, ih]

/-- Fields are as deep as the deepest of them. -/
theorem fieldDepth_le {fields : List (JsonText × Json)} {levels : Nat} :
  fieldDepth fields ≤ levels ↔ ∀ field ∈ fields, field.2.depth ≤ levels
  := by
  induction fields with
  | nil => simp [fieldDepth]
  | cons field fields ih => simp [fieldDepth, ih]

/-- A record is one level deeper than its fields. -/
theorem depth_ofFields_le {fields : List (String × Json)} {levels : Nat} :
  (ofFields fields).depth ≤ levels + 1 ↔ ∀ field ∈ fields, field.2.depth ≤ levels
  := by
  rw [ofFields, depth, Nat.add_le_add_iff_right, fieldDepth_le, List.forall_mem_map]

/-! ### Whole numbers -/

/-- Items are whole if each is. -/
theorem wholeItems_iff {items : List Json} :
  WholeItems items ↔ ∀ item ∈ items, item.Whole
  := by
  induction items with
  | nil => simp [WholeItems]
  | cons item items ih => simp [WholeItems, ih]

/-- Fields are whole if each is. -/
theorem wholeFields_iff {fields : List (JsonText × Json)} :
  WholeFields fields ↔ ∀ field ∈ fields, field.2.Whole
  := by
  induction fields with
  | nil => simp [WholeFields]
  | cons field fields ih => simp [WholeFields, ih]

@[simp]
theorem whole_list {items : List Json} :
  (Json.list items).Whole ↔ ∀ item ∈ items, item.Whole
  := by
  rw [Whole, wholeItems_iff]

@[simp]
theorem whole_ofFields {fields : List (String × Json)} :
  (ofFields fields).Whole ↔ ∀ field ∈ fields, field.2.Whole
  := by
  rw [ofFields, Whole, wholeFields_iff, List.forall_mem_map]

@[simp]
theorem whole_ofInt (n : Int) :
  (ofInt n).Whole
  := ⟨n, rfl⟩

@[simp]
theorem whole_ofText (s : String) :
  (ofText s).Whole
  := trivial

@[simp]
theorem whole_bool (b : Bool) :
  (Json.bool b).Whole
  := trivial

/-- A value that may be missing is whole if it is whole where it is there. -/
@[simp]
theorem whole_ofOption {α : Type} {write : α → Json} {value : Option α} :
  (ofOption write value).Whole ↔ ∀ a ∈ value, (write a).Whole
  := by
  cases value <;> simp [ofOption, Whole]

end Json

namespace Document

variable {α : Type} {limit : Nat}

/-! ### Shapes -/

/-- A reader gives `a` for the document wherever it has as many levels left as the document is
deep. Only levels up to `limit` are looked at. -/
def ReadsBack (limit : Nat) (read : Reading α) (j : Json) (a : α) : Prop :=
  ∀ levels ≤ limit, j.depth ≤ levels → read levels j = some a

/-- Items that are read one by one are all read. -/
theorem mapM_eq_some {β γ : Type} {f : β → Option γ} {g : β → γ} {items : List β}
    (h : ∀ item ∈ items, f item = some (g item)) :
  items.mapM f = some (items.map g)
  := by
  induction items with
  | nil => rfl
  | cons item items ih =>
    rw [List.forall_mem_cons] at h
    rw [List.mapM_cons, h.1, ih h.2]
    rfl

/-- A field is found by its name if no other has the name. -/
theorem field?_ofFields {fields : List (String × Json)} (hnames : (fields.map Prod.fst).Nodup)
    {field : String × Json} (h : field ∈ fields) :
  field? (fields.map fun (name, value) => (some name, value)) field.1 = some (.given field.2)
  := by
  have hfilter : (fields.map fun (name, value) => (some name, value)).filter
      (·.1 = some field.1) = [((some field.1 : JsonText), field.2)] := by
    induction fields with
    | nil => cases h
    | cons first fields ih =>
      obtain ⟨hfirst, hrest⟩ := List.nodup_cons.mp hnames
      obtain rfl | hfield := List.mem_cons.mp h
      · rw [List.map_cons, List.filter_cons_of_pos (by simp), List.filter_eq_nil_iff.mpr]
        rw [List.forall_mem_map]
        intro other hother
        have hne : other.1 ≠ field.1 := by
          rintro heq
          exact hfirst (heq ▸ List.mem_map_of_mem hother)
        simp [hne]
      · have hne : first.1 ≠ field.1 := by
          rintro heq
          exact hfirst (heq ▸ List.mem_map_of_mem hfield)
        rw [List.map_cons, List.filter_cons_of_neg (by simp [hne]), ih hrest hfield]
  rw [field?, hfilter]

/-- A record that is written with its fields in order. -/
theorem ReadsBack.record {fields : List (String × Json)} {k : Nat × List Field → Option α} {a : α}
    (hnames : (fields.map Prod.fst).Nodup)
    (h : ∀ levels < limit, fields.Forall (fun field => field.2.depth ≤ levels) →
      k (levels, fields.map fun field => .given field.2) = some a) :
  ReadsBack limit (fun levels j => (record? (fields.map Prod.fst) levels j).bind k)
    (.ofFields fields) a
  := by
  intro levels hlimit hdepth
  match levels with
  | 0 => cases hdepth
  | levels + 1 =>
    have hfields : (fields.map Prod.fst).mapM
        (field? (fields.map fun (name, value) => (some name, value)))
          = some (fields.map fun field => .given field.2) := by
      rw [List.mapM_map]
      apply mapM_eq_some
      intro field hfield
      exact field?_ofFields hnames hfield
    have hrecord : record? (fields.map Prod.fst) (levels + 1) (.ofFields fields)
        = some (levels, fields.map fun field => .given field.2) := by
      rw [Json.ofFields, record?, if_pos (by simp), hfields]
      rfl
    simp only [hrecord, Option.bind_some]
    rw [Json.depth_ofFields_le, ← List.forall_iff_forall_mem] at hdepth
    exact h levels (by omega) hdepth

/-- An alternative that is written with its contents. -/
theorem ReadsBack.alternative {name : String} {contents : Json}
    {k : String × Contents → Option α} {a : α}
    (h : ReadsBack limit (fun levels j => k (name, some (levels, j))) contents a) :
  ReadsBack limit (fun levels j => (alternative? levels j).bind k) (alternative name contents) a
  := by
  intro levels hlimit hdepth
  match levels with
  | 0 => cases hdepth
  | levels + 1 =>
    rw [Document.alternative, Json.depth_ofFields_le, List.forall_mem_singleton] at hdepth
    exact h levels (by omega) hdepth

/-- A list with its items. -/
theorem ReadsBack.items {items : List Json} {k : Nat × List Json → Option α} {a : α}
    (h : ∀ levels < limit, items.Forall (fun item => item.depth ≤ levels) →
      k (levels, items) = some a) :
  ReadsBack limit (fun levels j => (items? levels j).bind k) (.list items) a
  := by
  intro levels hlimit hdepth
  match levels with
  | 0 => cases hdepth
  | levels + 1 =>
    rw [Json.depth, Nat.add_le_add_iff_right, Json.itemDepth_le, ← List.forall_iff_forall_mem]
      at hdepth
    exact h levels (by omega) hdepth

/-- A list of values of one kind. -/
theorem ReadsBack.list {read : Reading α} {write : α → Json} {as : List α}
    (h : ∀ a ∈ as, ReadsBack limit read (write a) a) :
  ReadsBack limit (list? read) (.list (as.map write)) as
  := by
  apply ReadsBack.items
  intro levels hlevels hitems
  rw [List.forall_iff_forall_mem, List.forall_mem_map] at hitems
  have hread : as.mapM (read levels ∘ write) = some (as.map id) := by
    apply mapM_eq_some
    intro a ha
    exact h a ha levels hlevels.le (hitems a ha)
  rw [List.map_id] at hread
  rw [← hread]
  exact List.mapM_map

/-- A value that may be left out. -/
theorem option?_ofOption {read : Json → Option α} {write : α → Json} {value : Option α}
    (hwrite : ∀ a, write a ≠ .null) (h : ∀ a ∈ value, read (write a) = some a) :
  option? read (.ofOption write value) = some value
  := by
  cases value with
  | none => rfl
  | some a =>
    rw [Json.ofOption, option?, h a rfl]
    · rfl
    · exact hwrite a

/-- A value that may be left out, read with the levels that are left. -/
theorem ReadsBack.option {read : Reading α} {write : α → Json} {value : Option α}
    (hwrite : ∀ a, write a ≠ .null) (h : ∀ a ∈ value, ReadsBack limit read (write a) a) :
  ReadsBack limit (fun levels => option? (read levels)) (.ofOption write value) value
  := by
  intro levels hlimit hdepth
  apply option?_ofOption hwrite
  rintro a rfl
  exact h a rfl levels hlimit hdepth

/-! ### Plain values -/

/-- A whole number is read as it is written. -/
theorem toInt?_ofInt (n : Int) :
  (Numeral.ofInt n).toInt? = some n
  := by
  have hvalue : digitsValue (Nat.toDigits 10 n.natAbs) = n.natAbs := Nat.ofDigitChars_ten_toDigits
  by_cases hneg : n < 0
  · simp [Numeral.toInt?, Numeral.ofInt, hvalue, hneg, hneg.ne, abs_of_neg hneg]
  · simp [Numeral.toInt?, Numeral.ofInt, hvalue, hneg, abs_of_nonneg (not_lt.mp hneg)]

/-- A whole number in the range. -/
theorem int?_ofInt {low high n : Int} (hlow : low ≤ n) (hhigh : n ≤ high) :
  int? low high (.ofInt n) = some n
  := by
  rw [Json.ofInt, int?, toInt?_ofInt, Option.filter_some, if_pos]
  simp [hlow, hhigh]

/-- A byte is read back from its number. -/
@[simp]
theorem byte?_ofInt (b : UInt8) :
  byte? (.ofInt b.toNat) = some b
  := by
  have hhigh := b.toNat_lt
  have hback : UInt8.ofInt b.toNat = b := by
    apply UInt8.toNat_inj.mp
    simp [UInt8.ofInt]
    omega
  rw [byte?, int?_ofInt (by omega) (by omega), Option.map_some, hback]

/-- An unsigned word is read back from its number. -/
@[simp]
theorem unsigned?_ofInt (n : UInt32) :
  unsigned? (.ofInt n.toNat) = some n
  := by
  have hhigh := n.toNat_lt
  have hback : UInt32.ofInt n.toNat = n := by
    apply UInt32.toNat_inj.mp
    simp [UInt32.ofInt]
    omega
  rw [unsigned?, int?_ofInt (by omega) (by omega), Option.map_some, hback]

/-- A word is read back from its signed number. -/
@[simp]
theorem word?_ofInt (w : Word) :
  word? (.ofInt w.toInt) = some w
  := by
  have hlow := w.le_toInt
  have hhigh := w.toInt_lt
  rw [word?, int?_ofInt (by omega) (by omega)]
  simp

@[simp]
theorem text?_ofText (s : String) :
  text? (.ofText s) = some s
  := rfl

@[simp]
theorem bool?_bool (b : Bool) :
  bool? (.bool b) = some b
  := rfl

/-! ### Alternatives without contents -/

/-- Every alternative is found by its name. -/
def Names.Faithful [DecidableEq α] (names : Names α) : Prop :=
  ∀ a, names.find? (names.nameOf a) = some a

/-- Sizes are read back from their names. -/
theorem sizes_faithful : sizes.Faithful := by
  intro a
  cases a <;> rfl

theorem fillMoves_faithful : fillMoves.Faithful := by
  intro a
  cases a <;> rfl

theorem waits_faithful : waits.Faithful := by
  intro a
  cases a <;> rfl

theorem locks_faithful : locks.Faithful := by
  intro a
  cases a <;> rfl

theorem lookKinds_faithful : lookKinds.Faithful := by
  intro a
  cases a <;> rfl

theorem readOnlys_faithful : readOnlys.Faithful := by
  intro a
  cases a <;> rfl

theorem conversions_faithful : conversions.Faithful := by
  intro a
  cases a <;> rfl

theorem binaryOps_faithful : binaryOps.Faithful := by
  intro a
  cases a <;> rfl

theorem unaryOps_faithful : unaryOps.Faithful := by
  intro a
  cases a <;> rfl

/-- An alternative is read as it is written. -/
theorem oneOf?_choice [DecidableEq α] {names : Names α} (h : names.Faithful) (levels : Nat)
    (a : α) :
  oneOf? names levels (choice names a) = some a
  := by
  rw [oneOf?, choice, Json.ofText, alternative?, Option.bind_eq_bind, Option.bind_some]
  simp only [h a]
  rfl

/-- A text that may be left out. -/
@[simp]
theorem option?_ofText (s : Option String) :
  option? text? (.ofOption .ofText s) = some s
  := by
  apply option?_ofOption nofun
  intro s hs
  rfl

/-- An alternative that may be left out. -/
theorem option?_choice [DecidableEq α] {names : Names α} (h : names.Faithful) (levels : Nat)
    (a : Option α) :
  option? (oneOf? names levels) (.ofOption (choice names) a) = some a
  := by
  apply option?_ofOption nofun
  intro a ha
  exact oneOf?_choice h levels a

end Document

end SpinHub
