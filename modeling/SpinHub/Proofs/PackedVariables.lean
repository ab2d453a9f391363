import Mathlib
import SpinHub.Proofs.DatPasses

/-!
# Packed variables

Three passes over the variables of an object, one for each size, share an offset. Each variable
ends up behind all larger ones and behind those of its own size that are declared before it. So
variables fill their block without gaps and without overlaps, and every one is aligned.
-/

namespace SpinHub

/-! ### The room in front of a variable -/

/-- What counts of a variable for its place and for that of others. -/
def Var.shape (var : Var) : Size × Nat := (var.size, var.bytes)

/-- The bytes of the variables of one size. -/
def roomFor (size : Size) (vars : List Var) : Nat :=
  total ((vars.filter (·.size = size)).map Var.bytes)

/-- Where the variables of a size start: behind all larger ones. -/
def groupStart (vars : List Var) : Size → Nat
  | .long => 0
  | .word => roomFor .long vars
  | .byte => roomFor .long vars + roomFor .word vars

@[simp]
theorem roomFor_nil (size : Size) :
  roomFor size [] = 0
  := rfl

theorem roomFor_cons (size : Size) (var : Var) (rest : List Var) :
  roomFor size (var :: rest) = (if var.size = size then var.bytes else 0) + roomFor size rest
  := by
  rw [roomFor, List.filter_cons]
  split_ifs with h h' h'
  · rfl
  · simp [h'] at h
  · simp [h'] at h
  · rw [Nat.zero_add, roomFor]

theorem roomFor_append (size : Size) (front back : List Var) :
  roomFor size (front ++ back) = roomFor size front + roomFor size back
  := by
  induction front with
  | nil => simp
  | cons var front ih => rw [List.cons_append, roomFor_cons, roomFor_cons, ih, Nat.add_assoc]

/-- Only the sizes and bytes of variables count. -/
theorem roomFor_congr {vars vars' : List Var} (h : vars'.map Var.shape = vars.map Var.shape)
    (size : Size) :
  roomFor size vars' = roomFor size vars
  := by
  induction vars generalizing vars' with
  | nil => rw [List.map_eq_nil_iff.mp h]
  | cons var rest ih =>
    obtain ⟨var', rest', rfl, hvar, hrest⟩ := List.map_eq_cons_iff.mp h
    obtain ⟨hsize, hbytes⟩ := Prod.mk.inj hvar
    rw [roomFor_cons, roomFor_cons, ih hrest, hsize, hbytes]

theorem groupStart_congr {vars vars' : List Var} (h : vars'.map Var.shape = vars.map Var.shape)
    (size : Size) :
  groupStart vars' size = groupStart vars size
  := by
  cases size <;> simp only [groupStart, roomFor_congr h]

theorem dvd_roomFor (size : Size) (vars : List Var) :
  size.bytes ∣ roomFor size vars
  := by
  induction vars with
  | nil => apply dvd_zero
  | cons var rest ih =>
    rw [roomFor_cons]
    apply dvd_add _ ih
    split_ifs with h
    · rw [← h]
      apply dvd_mul_right
    · apply dvd_zero

/-- The room behind a variable of a size reaches at most to the room in front of a later one. -/
theorem roomFor_take_add_bytes {vars : List Var} {i : Nat} {var : Var} (h : vars[i]? = some var)
    {j : Nat} (hj : i < j) :
  roomFor var.size (vars.take i) + var.bytes ≤ roomFor var.size (vars.take j)
  := by
  have hstep : roomFor var.size (vars.take (i + 1))
      = roomFor var.size (vars.take i) + var.bytes := by
    rw [List.take_add_one, h, roomFor_append, Option.toList_some, roomFor_cons, if_pos rfl,
      roomFor_nil, Nat.add_zero]
  rw [← hstep, ← List.take_append_drop (i + 1) (vars.take j), roomFor_append, List.take_take,
    min_eq_left hj]
  apply Nat.le_add_right

/-- Every byte of the room for a size is in the room of a variable of that size. -/
theorem exists_of_lt_roomFor {size : Size} {vars : List Var} {x : Nat}
    (h : x < roomFor size vars) :
  ∃ i var, vars[i]? = some var ∧ var.size = size ∧ roomFor size (vars.take i) ≤ x
    ∧ x < roomFor size (vars.take i) + var.bytes
  := by
  induction vars generalizing x with
  | nil => cases Nat.not_lt_zero x h
  | cons var rest ih =>
    rw [roomFor_cons] at h
    set first := if var.size = size then var.bytes else 0 with hfirst
    by_cases hx : x < first
    · have hsize : var.size = size := by
        by_contra hother
        rw [hfirst, if_neg hother] at hx
        cases Nat.not_lt_zero x hx
      rw [hfirst, if_pos hsize] at hx
      exact ⟨0, var, rfl, hsize, Nat.zero_le x, by simpa using hx⟩
    · obtain ⟨i, other, hi, hsize, hle, hlt⟩ := ih (x := x - first) (by omega)
      refine ⟨i + 1, other, hi, hsize, ?_, ?_⟩
      · rw [List.take_succ_cons, roomFor_cons, ← hfirst]
        omega
      · rw [List.take_succ_cons, roomFor_cons, ← hfirst]
        omega

/-! ### The passes -/

/-- A pass moves the variables of its size behind one another and leaves the others alone. -/
theorem placeVars_spec (size : Size) (offset : Nat) (vars : List Var) :
  (∀ i : Nat, (placeVars size offset vars).1[i]? = vars[i]?.map fun var =>
      if var.size = size then { var with offset := offset + roomFor size (vars.take i) } else var)
    ∧ (placeVars size offset vars).2 = offset + roomFor size vars
  := by
  induction vars generalizing offset with
  | nil => exact ⟨fun i => rfl, rfl⟩
  | cons var rest ih =>
    rw [placeVars, roomFor_cons]
    split_ifs with h
    · obtain ⟨hget, hend⟩ := ih (offset + var.bytes)
      constructor
      · intro i
        cases i with
        | zero => simp [h]
        | succ i =>
          simp only [List.getElem?_cons_succ, hget, List.take_succ_cons, roomFor_cons, if_pos h,
            Nat.add_assoc]
      · rw [hend, Nat.add_assoc]
    · obtain ⟨hget, hend⟩ := ih offset
      constructor
      · intro i
        cases i with
        | zero => simp [h]
        | succ i =>
          simp only [List.getElem?_cons_succ, hget, List.take_succ_cons, roomFor_cons, if_neg h,
            Nat.zero_add]
      · rw [hend, Nat.zero_add]

/-- Offsets are all that changes of variables. -/
theorem map_placeVars {γ : Type} {p : Var → γ} (h : ∀ var offset, p { var with offset } = p var)
    (size : Size) (offset : Nat) (vars : List Var) :
  (placeVars size offset vars).1.map p = vars.map p
  := by
  apply List.ext_getElem?
  intro i
  rw [List.getElem?_map, (placeVars_spec size offset vars).1, List.getElem?_map, Option.map_map]
  congr 1
  funext var
  dsimp only [Function.comp]
  split_ifs
  · apply h
  · rfl

theorem map_shape_placeVars (size : Size) (offset : Nat) (vars : List Var) :
  (placeVars size offset vars).1.map Var.shape = vars.map Var.shape
  := map_placeVars (fun _ _ => rfl) size offset vars

/-- The three passes give every variable the room in front of it as its offset. -/
theorem Object.withVars_spec (object : Object) (extents : List (List Nat)) :
  let measured := object.vars.zipWith (fun var extents => { var with extents }) extents
  (∀ i : Nat, (object.withVars extents).vars[i]? = measured[i]?.map fun var =>
      { var with offset := groupStart measured var.size + roomFor var.size (measured.take i) })
    ∧ (object.withVars extents).varSize
      = roundLong (groupStart measured .byte + roomFor .byte measured)
  := by
  intro measured
  have room {vars : List Var} (hshape : vars.map Var.shape = measured.map Var.shape) (size : Size)
      (i : Nat) : roomFor size (vars.take i) = roomFor size (measured.take i) := by
    apply roomFor_congr
    rw [List.map_take, hshape, List.map_take]
  obtain ⟨hlongs, hlongs_end⟩ := placeVars_spec .long 0 measured
  have hlongs_shape := map_shape_placeVars .long 0 measured
  set longs := placeVars .long 0 measured with hlongs_def
  obtain ⟨hwords, hwords_end⟩ := placeVars_spec .word longs.2 longs.1
  have hwords_shape := (map_shape_placeVars .word longs.2 longs.1).trans hlongs_shape
  set words := placeVars .word longs.2 longs.1 with hwords_def
  obtain ⟨hbytes, hbytes_end⟩ := placeVars_spec .byte words.2 words.1
  rw [Nat.zero_add] at hlongs_end
  rw [roomFor_congr hlongs_shape, hlongs_end] at hwords_end
  rw [roomFor_congr hwords_shape] at hbytes_end
  constructor
  · intro i
    change (placeVars .byte words.2 words.1).1[i]? = _
    rw [hbytes, hwords, hlongs, Option.map_map, Option.map_map]
    congr 1
    funext var
    simp only [room hlongs_shape, room hwords_shape, hlongs_end, hwords_end, Function.comp]
    cases hsize : var.size with
    | long => simp [groupStart]
    | word => simp [groupStart, hsize]
    | byte => simp [groupStart, hsize]
  · change roundLong (placeVars .byte words.2 words.1).2 = _
    rw [hbytes_end, hwords_end]
    rfl

/-! ### Tiling -/

/-- A byte of the block belongs to a variable. -/
def Var.Covers (var : Var) (x : Nat) : Prop := var.offset ≤ x ∧ x < var.offset + var.bytes

/-- Variables fill a block of bytes without gaps and without overlaps: larger ones in front of
smaller ones, those of one size as declared, and each at a multiple of its size. -/
structure Packed (vars : List Var) (size : Nat) : Prop where
  covers : ∀ x, x < size ↔ ∃ var ∈ vars, var.Covers x
  apart : vars.Pairwise fun var other => ∀ x, ¬ (var.Covers x ∧ other.Covers x)
  ordered : ∀ (i j : Nat) (var other : Var), vars[i]? = some var → vars[j]? = some other →
    other.size.bytes < var.size.bytes ∨ other.size = var.size ∧ i < j →
      var.offset + var.bytes ≤ other.offset
  aligned : ∀ var ∈ vars, var.size.bytes ∣ var.offset

theorem Size.bytes_injective :
  Function.Injective Size.bytes
  := by
  intro size size' h
  cases size <;> cases size' <;> simp [Size.bytes] at h ⊢

theorem groupStart_add_roomFor_le {large small : Size} (h : small.bytes < large.bytes)
    (vars : List Var) :
  groupStart vars large + roomFor large vars ≤ groupStart vars small
  := by
  cases large <;> cases small <;> simp [Size.bytes, groupStart] at h ⊢

theorem dvd_groupStart (size : Size) (vars : List Var) :
  size.bytes ∣ groupStart vars size
  := by
  cases size with
  | long => apply dvd_zero
  | word => apply dvd_trans (by decide : 2 ∣ 4) (dvd_roomFor .long vars)
  | byte => apply one_dvd

/-- The block is divided among the sizes. -/
theorem lt_total_iff (vars : List Var) (x : Nat) :
  x < groupStart vars .byte + roomFor .byte vars
    ↔ ∃ size, groupStart vars size ≤ x ∧ x < groupStart vars size + roomFor size vars
  := by
  constructor
  · intro h
    by_cases hlong : x < roomFor .long vars
    · use .long
      simpa [groupStart] using hlong
    · by_cases hword : x < roomFor .long vars + roomFor .word vars
      · use .word
        simp only [groupStart]
        omega
      · use .byte
        simp only [groupStart] at h ⊢
        omega
  · rintro ⟨size, _, hlt⟩
    cases size <;> simp only [groupStart] at hlt ⊢ <;> omega

section Offsets

variable {vars : List Var} (h : ∀ (i : Nat) (var : Var), vars[i]? = some var →
  var.offset = groupStart vars var.size + roomFor var.size (vars.take i))

include h

/-- A variable ends inside the room for its size. -/
theorem end_le_group {i : Nat} {var : Var} (hi : vars[i]? = some var) :
  var.offset + var.bytes ≤ groupStart vars var.size + roomFor var.size vars
  := by
  obtain ⟨hlt, _⟩ := List.getElem?_eq_some_iff.mp hi
  have hroom := roomFor_take_add_bytes hi hlt
  rw [List.take_length] at hroom
  rw [h i var hi]
  omega

theorem end_le_offset {i j : Nat} {var other : Var} (hi : vars[i]? = some var)
    (hj : vars[j]? = some other)
    (horder : other.size.bytes < var.size.bytes ∨ other.size = var.size ∧ i < j) :
  var.offset + var.bytes ≤ other.offset
  := by
  rcases horder with hsize | ⟨hsize, hlt⟩
  · have hgroup := groupStart_add_roomFor_le hsize vars
    have hend := end_le_group h hi
    rw [h j other hj]
    omega
  · have hroom := roomFor_take_add_bytes hi hlt
    rw [h i var hi, h j other hj, hsize]
    omega

/-- Variables are packed if each one has the room in front of it as its offset. -/
theorem packed_of_offsets :
  Packed vars (groupStart vars .byte + roomFor .byte vars)
  := by
  constructor
  · intro x
    rw [lt_total_iff]
    constructor
    · rintro ⟨size, hle, hlt⟩
      have hroom : x - groupStart vars size < roomFor size vars := by omega
      obtain ⟨i, var, hi, rfl, hfrom, hto⟩ := exists_of_lt_roomFor hroom
      refine ⟨var, List.mem_of_getElem? hi, ?_⟩
      rw [Var.Covers, h i var hi]
      omega
    · rintro ⟨var, hvar, hfrom, hto⟩
      obtain ⟨i, hi⟩ := List.getElem?_of_mem hvar
      have hend := end_le_group h hi
      have hstart := h i var hi
      use var.size
      omega
  · rw [List.pairwise_iff_getElem]
    rintro i j hi hj hlt x ⟨⟨hfrom, hto⟩, hfrom', hto'⟩
    have hvar := List.getElem?_eq_getElem hi
    have hother := List.getElem?_eq_getElem hj
    -- whichever comes first ends in front of the other
    rcases Nat.lt_trichotomy vars[j].size.bytes vars[i].size.bytes with hless | hequal | hmore
    · have := end_le_offset h hvar hother (.inl hless)
      omega
    · have := end_le_offset h hvar hother (.inr ⟨Size.bytes_injective hequal, hlt⟩)
      omega
    · have := end_le_offset h hother hvar (.inl hmore)
      omega
  · intro i j var other hi hj
    apply end_le_offset h hi hj
  · intro var hvar
    obtain ⟨i, hi⟩ := List.getElem?_of_mem hvar
    rw [h i var hi]
    apply dvd_add (dvd_groupStart var.size vars) (dvd_roomFor var.size _)

end Offsets

/-! ### Dimensions -/

/-- A dimension has a positive value, and the memo knows what is needed to find it. -/
def Site.Measures (site : Site) (memo : Memo) (dim : Exp) (n : Nat) : Prop :=
  1 ≤ n ∧ Yields (site.evalInt dim) memo n memo

/-- The cells of a measured variable are the product of its dimensions. -/
theorem Var.cells_of_measure {var : Var} {site : Site} {extents : List Nat} {memo memo' : Memo}
    (h : Yields (var.measure site) memo extents memo') :
  ∃ values, List.Forall₂ (site.Measures memo') var.dims values
    ∧ extents.foldl (· * ·) 1 = values.prod
  := by
  obtain ⟨values, m, hvalues, h⟩ := yields_bind.mp h
  use values
  constructor
  · have hm : memo' = m := by
      cases values with
      | nil => exact (yields_pure.mp h).2
      | cons value rest => exact (yields_pure.mp h).2
    subst hm
    apply (forall₂_of_mapM (Step.extent_repeats (.refl site) var) hvalues).imp
    intro dim n hextent
    obtain ⟨value, m, hvalue, hextent⟩ := yields_bind.mp hextent
    split_ifs at hextent with hsmall
    · cases yields_failAt hextent
    · obtain ⟨rfl, rfl⟩ := yields_pure.mp hextent
      refine ⟨by omega, ?_⟩
      rwa [Int.toNat_of_nonneg (by omega)]
  · cases values with
    | nil =>
      obtain ⟨rfl, _⟩ := yields_pure.mp h
      rfl
    | cons value rest =>
      obtain ⟨rfl, _⟩ := yields_pure.mp h
      apply List.prod_eq_foldl.symm

theorem roundLong_isLeast (n : Nat) :
  IsLeast {m | n ≤ m ∧ 4 ∣ m} (roundLong n)
  := by
  constructor
  · constructor
    · rw [roundLong]
      omega
    · apply Nat.dvd_mul_left
  · rintro m ⟨hle, quotient, rfl⟩
    rw [roundLong]
    omega

theorem Object.map_withVars {γ : Type} {p : Var → γ}
    (h : ∀ var offset, p { var with offset } = p var) (object : Object)
    (extents : List (List Nat)) :
  (object.withVars extents).vars.map p
    = (object.vars.zipWith (fun var extents => { var with extents }) extents).map p
  := by
  rw [withVars, map_placeVars h, map_placeVars h, map_placeVars h]

theorem Object.map_shape_withVars (object : Object) (extents : List (List Nat)) :
  (object.withVars extents).vars.map Var.shape
    = (object.vars.zipWith (fun var extents => { var with extents }) extents).map Var.shape
  := object.map_withVars (fun _ _ => rfl) extents

/-- Laying out variables that have been measured packs them. -/
theorem Object.withVars_packed (object : Object) (extents : List (List Nat)) :
  ∃ size, Packed (object.withVars extents).vars size
    ∧ IsLeast {n | size ≤ n ∧ 4 ∣ n} (object.withVars extents).varSize
  := by
  obtain ⟨hget, hsize⟩ := object.withVars_spec extents
  set measured := object.vars.zipWith (fun var extents => { var with extents }) extents
  have hshape : (object.withVars extents).vars.map Var.shape = measured.map Var.shape :=
    object.map_shape_withVars extents
  use groupStart measured .byte + roomFor .byte measured
  constructor
  · rw [← groupStart_congr hshape, ← roomFor_congr hshape]
    apply packed_of_offsets
    intro i var hvar
    rw [hget] at hvar
    obtain ⟨declared, _, rfl⟩ := Option.map_eq_some_iff.mp hvar
    have htake : ((object.withVars extents).vars.take i).map Var.shape
        = (measured.take i).map Var.shape := by
      rw [List.map_take, hshape, List.map_take]
    rw [groupStart_congr hshape, roomFor_congr htake]
  · rw [hsize]
    apply roundLong_isLeast

/-- Each variable is laid out with the extents that were measured for it. -/
theorem Object.forall₂_withVars {P : Var → List Nat → Prop} {object : Object}
    {extents : List (List Nat)} (h : List.Forall₂ P object.vars extents) :
  List.Forall₂ (fun declared var => P declared var.extents ∧ var.name = declared.name
      ∧ var.size = declared.size ∧ var.dims = declared.dims)
    object.vars (object.withVars extents).vars
  := by
  obtain ⟨hget, _⟩ := object.withVars_spec extents
  obtain ⟨hlength, hall⟩ := List.forall₂_iff_get.mp h
  have hlaid (i : Nat) (hi : i < object.vars.length) (hi' : i < extents.length) :
      ∃ offset, (object.withVars extents).vars[i]?
        = some { object.vars[i] with extents := extents[i], offset } := by
    rw [hget, List.getElem?_zipWith, List.getElem?_eq_getElem hi, List.getElem?_eq_getElem hi']
    exact ⟨_, rfl⟩
  apply List.forall₂_iff_get.mpr
  constructor
  · have hcount := congrArg List.length (object.map_shape_withVars extents)
    rw [List.length_map, List.length_map, List.length_zipWith, ← hlength, min_self] at hcount
    exact hcount.symm
  · intro i hi hi'
    obtain ⟨offset, hvar⟩ := hlaid i hi (hlength ▸ hi)
    rw [List.getElem?_eq_getElem hi', Option.some.injEq] at hvar
    rw [List.get_eq_getElem, List.get_eq_getElem, hvar]
    exact ⟨hall i hi (hlength ▸ hi), rfl, rfl, rfl⟩

namespace Step

/-- Laying out the variables of an object packs them into a block, which is filled up to a whole
number of longs. The bytes of a variable are the product of its dimensions times its size. A failure
changes no object. -/
theorem placeVars_packs (id : ObjId) (b : Build) :
  (∀ b', Yields (placeVars id) b () b' →
    let object := b'.object id
    ∃ size, Packed object.vars size
      ∧ IsLeast {n | size ≤ n ∧ 4 ∣ n} object.varSize
      ∧ List.Forall₂ (fun declared var =>
          var.name = declared.name ∧ var.size = declared.size ∧ var.dims = declared.dims
            ∧ ∃ values, List.Forall₂ ((b.site id).Measures b'.memo) declared.dims values
              ∧ var.bytes = declared.size.bytes * values.prod)
        (b.object id).vars object.vars)
  ∧ ∀ fault b', Fails (placeVars id) b fault b' → b'.objects = b.objects
  := by
  constructor
  · intro b' h
    obtain ⟨extents, m, hextents, hmodify⟩ := yields_bind.mp (yields_object_bind.mp h)
    obtain ⟨memo, hmeasure, rfl⟩ := yields_evaluateIn.mp hextents
    obtain rfl := yields_modifyObject.mp hmodify
    have hmeasured := forall₂_of_mapM (Step.measure_repeats (.refl (b.site id))) hmeasure
    have hobject : ({ b with memo }.modifyObject id (·.withVars extents)).object id
        = (b.object id).withVars extents := by
      by_cases hid : id < b.objects.length
      · apply Build.object_modifyObject_self _ hid
      · -- without the object there are no variables
        have hnone : { b with memo }.objects.length ≤ id := Nat.le_of_not_lt hid
        have hlength := length_of_mapM hmeasure
        rw [Build.object_of_le (Nat.le_of_not_lt hid)] at hlength ⊢
        rw [List.eq_nil_of_length_eq_zero hlength, Build.modifyObject_of_le _ hnone]
        apply Build.object_of_le hnone
    obtain ⟨size, hpacked, hsize⟩ := (b.object id).withVars_packed extents
    rw [hobject]
    refine ⟨size, hpacked, hsize, ?_⟩
    apply (Object.forall₂_withVars hmeasured).imp
    rintro declared var ⟨hvar, hname, hsize, hdims⟩
    obtain ⟨values, hvalues, hcells⟩ := Var.cells_of_measure hvar
    refine ⟨hname, hsize, hdims, values, hvalues, ?_⟩
    rw [Var.bytes, hsize, Var.cells, hcells]
  · intro fault b' h
    rcases fails_bind.mp (fails_object_bind.mp h) with hextents | ⟨_, _, _, hmodify⟩
    · obtain ⟨memo, _, rfl⟩ := fails_evaluateIn.mp hextents
      rfl
    · cases hmodify

/-- An object with variables of all sizes, in no order, and a table of `rows` rows. -/
def tableBuild (rows : Word) : Build :=
  { order := [0]
    objects := [
      { file := "table"
        names := [("ROWS", .con 0)]
        cons := [{ name := { name := "ROWS" }, value := .int {} rows }]
        vars := [
          { name := { name := "flag" }, size := .byte, dims := [] },
          { name := { name := "table" }, size := .long, dims := [.name {} "rows", .int {} 3] },
          { name := { name := "half" }, size := .word, dims := [] },
          { name := { name := "last" }, size := .long, dims := [] },
          { name := { name := "text" }, size := .byte, dims := [.int {} 3] }] }] }

/-- A table of two rows comes first, then `last`, `half`, `flag` and `text`, and two bytes fill the
block up. A table without rows is an error that changes nothing. -/
theorem placeVars_packs_table :
  (∃ b', Yields (placeVars 0) (tableBuild 2) () b'
    ∧ (b'.object 0).vars.map (·.offset) = [30, 0, 28, 24, 31] ∧ (b'.object 0).varSize = 36
    ∧ ∃ size, Packed (b'.object 0).vars size ∧ IsLeast {n | size ≤ n ∧ 4 ∣ n} 36)
  ∧ ∃ fault b', Fails (placeVars 0) (tableBuild 0) fault b'
    ∧ b'.objects = (tableBuild 0).objects
  := by
  constructor
  · have hresult : ((placeVars 0).run.run (tableBuild 2)).1 = .ok () := by decide +kernel
    have hoffsets : (((placeVars 0).run.run (tableBuild 2)).2.object 0).vars.map (·.offset)
        = [30, 0, 28, 24, 31] := by decide +kernel
    have hsize : (((placeVars 0).run.run (tableBuild 2)).2.object 0).varSize = 36 := by
      decide +kernel
    have hplace := Yields.of_result hresult
    generalize ((placeVars 0).run.run (tableBuild 2)).2 = b' at *
    obtain ⟨size, hpacked, hleast, _⟩ := (placeVars_packs 0 (tableBuild 2)).1 b' hplace
    rw [hsize] at hleast
    exact ⟨b', hplace, hoffsets, hsize, size, hpacked, hleast⟩
  · have hresult : ((placeVars 0).run.run (tableBuild 0)).1
        = .error { cause := .arraySize "table", pos := {} } := by decide +kernel
    have hfail : Fails (placeVars 0) (tableBuild 0) _ ((placeVars 0).run.run (tableBuild 0)).2 :=
      Prod.ext hresult rfl
    generalize ((placeVars 0).run.run (tableBuild 0)).2 = b' at hfail
    exact ⟨_, b', hfail, (placeVars_packs 0 (tableBuild 0)).2 _ b' hfail⟩

end Step

end SpinHub
