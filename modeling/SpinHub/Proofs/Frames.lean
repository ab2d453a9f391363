import Mathlib
import SpinHub.Code.Method
import SpinHub.Layout.Slots
import SpinHub.Proofs.SteadySteps

/-!
# What phases leave alone

A phase that works on one object leaves all others alone, and of its own object it changes only
what it is there for. `Quiet` steps change no object at all; `Keeping id p` steps change object
`id` at most, and not what `p` reads of it.
-/

namespace SpinHub

variable {α γ : Type}

namespace Build

/-- Nothing has changed but remarks and evaluated constants. -/
structure Unchanged (b b' : Build) : Prop where
  objects : b'.objects = b.objects
  order : b'.order = b.order
  totals : b'.totals = b.totals

theorem Unchanged.trans {a b c : Build} (hab : a.Unchanged b) (hbc : b.Unchanged c) :
  a.Unchanged c
  := ⟨hbc.objects.trans hab.objects, hbc.order.trans hab.order, hbc.totals.trans hab.totals⟩

/-- Every object is what it was. -/
theorem Unchanged.object {b b' : Build} (h : b.Unchanged b') (id : ObjId) :
  b'.object id = b.object id
  := by
  rw [Build.object, h.objects, Build.object]

theorem Unchanged.tolerant :
  Tolerant Unchanged
  where
  refl _ := ⟨rfl, rfl, rfl⟩
  trans := Unchanged.trans
  memo _ _ := ⟨rfl, rfl, rfl⟩
  warn _ _ _ _ := ⟨rfl, rfl, rfl⟩

/-- At most object `id` has changed, and what `p` reads of it is the same. -/
structure Keeps (id : ObjId) (p : Object → γ) (b b' : Build) : Prop where
  others : ∀ other, other ≠ id → b'.object other = b.object other
  self : p (b'.object id) = p (b.object id)
  length : b'.objects.length = b.objects.length
  order : b'.order = b.order
  totals : b'.totals = b.totals

namespace Keeps

variable {id : ObjId} {p : Object → γ}

/-- What leaves a build unchanged keeps everything. -/
theorem of_unchanged {b b' : Build} (h : b.Unchanged b') :
  b.Keeps id p b'
  := by
  constructor
  · intro other _
    apply h.object
  · rw [h.object]
  · rw [h.objects]
  · exact h.order
  · exact h.totals

theorem trans {a b c : Build} (hab : a.Keeps id p b) (hbc : b.Keeps id p c) :
  a.Keeps id p c
  where
  others other h := (hbc.others other h).trans (hab.others other h)
  self := hbc.self.trans hab.self
  length := hbc.length.trans hab.length
  order := hbc.order.trans hab.order
  totals := hbc.totals.trans hab.totals

/-- What keeps a view of an object keeps every view of that view. -/
theorem comp {δ : Type} {b b' : Build} (h : b.Keeps id p b') (f : γ → δ) :
  b.Keeps id (fun object => f (p object)) b'
  := ⟨h.others, congrArg f h.self, h.length, h.order, h.totals⟩

/-- A change of an object keeps what it leaves alone. -/
theorem modifyObject {b : Build} {f : Object → Object} (h : p (f (b.object id)) = p (b.object id)) :
  b.Keeps id p (b.modifyObject id f)
  where
  others _ hother := object_modifyObject_ne f hother.symm
  self := congr_modifyObject b id h
  length := b.length_modifyObject id f
  order := rfl
  totals := rfl

theorem tolerant :
  Tolerant (Keeps id p)
  where
  refl b := of_unchanged (Unchanged.tolerant.refl b)
  trans := trans
  memo b memo := of_unchanged (Unchanged.tolerant.memo b memo)
  warn b id pos text := of_unchanged (Unchanged.tolerant.warn b id pos text)

/-- The relation admits what it keeps. -/
theorem admits :
  Admits (Keeps id p) id p
  := fun _ _ h => modifyObject h

/-- What leaves the objects outside a list alone does so behind a change to one in front of it. -/
theorem others_cons {a b c : Build} {rest : List ObjId} (hab : a.Keeps id p b)
    (hbc : ∀ other, other ∉ rest → c.object other = b.object other) {other : ObjId}
    (hother : other ∉ id :: rest) :
  c.object other = a.object other
  := by
  rw [hbc other (List.not_mem_of_not_mem_cons hother),
    hab.others other (List.ne_of_not_mem_cons hother)]

end Keeps

/-- What `p` reads is the same of all objects. -/
structure Agree (p : Object → γ) (b b' : Build) : Prop where
  objects : ∀ id, p (b'.object id) = p (b.object id)
  length : b'.objects.length = b.objects.length
  order : b'.order = b.order

theorem Agree.refl {p : Object → γ} (b : Build) :
  b.Agree p b
  := ⟨fun _ => rfl, rfl, rfl⟩

theorem Agree.trans {p : Object → γ} {a b c : Build} (hab : a.Agree p b) (hbc : b.Agree p c) :
  a.Agree p c
  where
  objects id := (hbc.objects id).trans (hab.objects id)
  length := hbc.length.trans hab.length
  order := hbc.order.trans hab.order

theorem Agree.symm {p : Object → γ} {b b' : Build} (h : b.Agree p b') :
  b'.Agree p b
  := ⟨fun id => (h.objects id).symm, h.length.symm, h.order.symm⟩

/-- Builds that agree in a view agree in every view of that view. -/
theorem Agree.comp {δ : Type} {p : Object → γ} {b b' : Build} (h : b.Agree p b') (f : γ → δ) :
  b.Agree (fun object => f (p object)) b'
  := ⟨fun id => congrArg f (h.objects id), h.length, h.order⟩

/-- Unchanged builds agree in everything. -/
theorem Agree.of_unchanged {p : Object → γ} {b b' : Build} (h : b.Unchanged b') :
  b.Agree p b'
  := by
  refine ⟨?_, by rw [h.objects], h.order⟩
  intro id
  rw [h.object]

/-- What `p` reads is the same of all objects, and no total has been computed. -/
structure KeepsAll (p : Object → γ) (b b' : Build) : Prop extends b.Agree p b' where
  totals : b'.totals = b.totals

namespace KeepsAll

variable {p : Object → γ}

theorem refl (b : Build) :
  b.KeepsAll p b
  := ⟨.refl b, rfl⟩

theorem trans {a b c : Build} (hab : a.KeepsAll p b) (hbc : b.KeepsAll p c) :
  a.KeepsAll p c
  := ⟨hab.toAgree.trans hbc.toAgree, hbc.totals.trans hab.totals⟩

theorem comp {δ : Type} {b b' : Build} (h : b.KeepsAll p b') (f : γ → δ) :
  b.KeepsAll (fun object => f (p object)) b'
  := ⟨h.toAgree.comp f, h.totals⟩

/-- What keeps a view of one object and leaves the others alone keeps it of all. -/
theorem of_keeps {id : ObjId} {b b' : Build} (h : b.Keeps id p b') :
  b.KeepsAll p b'
  := by
  refine ⟨⟨?_, h.length, h.order⟩, h.totals⟩
  intro other
  by_cases hother : other = id
  · rw [hother, h.self]
  · rw [h.others other hother]

end KeepsAll

end Build

namespace Step

/-- The step changes no object. -/
def Quiet (action : Step α) : Prop :=
  ∀ s a s', Yields action s a s' → s.Unchanged s'

/-- The step changes object `id` at most, and not what `p` reads of it. -/
def Keeping (id : ObjId) (p : Object → γ) (action : Step α) : Prop :=
  ∀ s a s', Yields action s a s' → s.Keeps id p s'

/-- A step that is steady for unchanged builds is quiet. -/
theorem Quiet.of_steady {action : Step α} (h : Steady Build.Unchanged action) :
  Quiet action
  := fun _ _ _ hs => h.yields hs

namespace Keeping

variable {id : ObjId} {p : Object → γ}

/-- A step that is steady for what is kept of an object keeps it. -/
theorem of_steady {action : Step α} (h : Steady (Build.Keeps id p) action) :
  Keeping id p action
  := fun _ _ _ hs => h.yields hs

theorem inObject {action : Step α} (h : Keeping id p action) :
  Keeping id p (inObject id action)
  := by
  intro s a s' hs
  apply h _ _ _ (yields_inObject.mp hs)

end Keeping

/-- Placing an entry changes no object. -/
theorem place_quiet (config : Config) (pass : Pass) (id : ObjId) (cursor : Cursor)
    (entry : DatEntry) :
  Quiet (place config pass id cursor entry)
  := .of_steady (place_steady Build.Unchanged.tolerant config pass cursor entry)

end Step

/-- What the table of an object is made from, and what takes the object's place. -/
def Object.table (object : Object) :
    List SubObject × Nat × Nat × List Method × Option ObjId :=
  (object.subs, object.subSlots, object.headerSize, object.methods, object.replacement)

/-- The table with the labels of the DAT section. -/
def Object.tableAndLabels (object : Object) :
    (List SubObject × Nat × Nat × List Method × Option ObjId) × List Label :=
  (object.table, object.labels)

namespace Step

/-- Measuring a section leaves the table alone. -/
theorem measureDat_keeping (config : Config) (id : ObjId) :
  Keeping id Object.table (measureDat config id)
  := by
  apply Keeping.of_steady
  apply measureDat_steady Build.Keeps.tolerant
  apply Build.Admits.of_comp Object.table Build.Keeps.admits

/-- Laying out variables keeps the table and the labels of an object. -/
theorem placeVars_keeping (id : ObjId) :
  Keeping id Object.tableAndLabels (placeVars id)
  := by
  apply Keeping.of_steady
  apply placeVars_steady Build.Keeps.tolerant
  intro b extents
  apply Build.Keeps.modifyObject rfl

/-- Writing a section leaves the table and the labels alone. -/
theorem writeDat_keeping (config : Config) (id : ObjId) :
  Keeping id Object.tableAndLabels (writeDat config id)
  := by
  apply Keeping.of_steady
  apply writeDat_steady Build.Keeps.tolerant
  apply Build.Admits.of_comp Object.tableAndLabels Build.Keeps.admits

end Step

end SpinHub
