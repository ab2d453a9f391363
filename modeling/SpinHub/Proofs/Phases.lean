import Mathlib
import SpinHub.Proofs.ObjectLayout

/-!
# Phases

A build is laid out and compiled by phases that change one object at a time, and there are few kinds
of changes. Whatever relation of builds each of them keeps to, all phases keep to, however far they
get.
-/

namespace SpinHub

namespace Build

/-- A relation of builds that giving out slots keeps to. -/
structure Slotting (R : Build → Build → Prop) : Prop extends Tolerant R where
  subSlots : ∀ b id counts, R b (b.modifyObject id (·.withSubSlots counts))
  table : ∀ b id slots, R b (b.modifyObject id (·.withTable slots))
  methodSlots : ∀ b id, R b (b.modifyObject id Object.withMethodSlots)

/-- A relation of builds that compiling objects keeps to. -/
structure Compiling (R : Build → Build → Prop) : Prop extends Tolerant R where
  hubAddress : ∀ b id address,
    R b (b.modifyObject id fun object => { object with hubAddress := address })
  declared : ∀ b id {key label object}, (b.object id).declare (.label key label) = .ok object →
    ∀ name, R b (b.modifyObject id fun _ => object.passLabel name)
  vars : ∀ b id extents, extents.length = (b.object id).vars.length →
    R b (b.modifyObject id (·.withVars extents))
  written : ∀ id, Admits R id Object.unwritten
  compiled : ∀ id, Admits R id Object.outline

/-- A relation of builds that every change of a phase keeps to. -/
structure Enduring (R : Build → Build → Prop) : Prop extends Slotting R, Compiling R

end Build

namespace Step

variable {R : Build → Build → Prop}

/-! ### Slots -/

section Slots

variable (hR : Build.Slotting R)

include hR

/-- Giving out the slots of sub-objects is steady. -/
theorem placeSubs_steady (id : ObjId) :
  Steady R (inObject id (placeSubs id))
  := by
  apply Steady.inObject hR.toTolerant
  apply Steady.bind hR.toTolerant (Steady.object hR.toTolerant id)
  intro object
  apply Steady.bind hR.toTolerant (Steady.evaluateIn hR.toTolerant id _)
  intro counts
  apply Steady.bind hR.toTolerant
  · intro s
    apply hR.subSlots
  intro _
  split_ifs
  · apply Steady.failAt hR.toTolerant
  · intro s
    apply hR.table

theorem placeMethods_steady (id : ObjId) :
  Steady R (placeMethods id)
  := fun s => hR.methodSlots s id

/-- Giving out all slots is steady, from object to object. -/
theorem placeSlots_steady (ids : List ObjId) :
  Steady R (placeSlots ids)
  := by
  apply Steady.forM hR.toTolerant
  intro id _
  apply Steady.bind hR.toTolerant (placeSubs_steady hR id)
  intro _
  apply placeMethods_steady hR

end Slots

/-! ### Objects -/

section Objects

variable (hR : Build.Compiling R)

include hR

/-- Measuring a DAT section is steady for what compiling keeps to. -/
theorem measureDat_compiling (config : Config) (id : ObjId) :
  Steady R (measureDat config id)
  := by
  apply measureDat_steady_of_declared hR.toTolerant _ (hR.written id)
  intro b key label object hadd
  apply hR.declared b id hadd

theorem placeVars_compiling (id : ObjId) :
  Steady R (inObject id (placeVars id))
  := by
  apply Steady.inObject hR.toTolerant
  apply placeVars_steady_of_length hR.toTolerant
  intro b extents hlength
  apply hR.vars b id extents hlength

/-- Compiling an object is steady, through all of its phases. -/
theorem compileObject_steady (config : Config) (id : ObjId) (address : Nat) :
  Steady R (compileObject config id address)
  := by
  apply Steady.bind hR.toTolerant
  · intro s
    apply hR.hubAddress s id address
  intro _
  apply Steady.bind hR.toTolerant (measureDat_compiling hR config id)
  intro _
  apply Steady.bind hR.toTolerant (placeVars_compiling hR id)
  intro _
  apply Steady.bind hR.toTolerant (writeDat_steady hR.toTolerant (hR.written id) config)
  intro _
  apply compileMethods_steady hR.toTolerant (hR.compiled id)

/-- Compiling objects one behind the other is steady. -/
theorem compileObjects_steady (config : Config) (address : Nat) (ids : List ObjId) :
  Steady R (compileObjects config address ids)
  := by
  induction ids generalizing address with
  | nil => apply Steady.pure hR.toTolerant
  | cons id rest ih =>
    apply Steady.bind hR.toTolerant (compileObject_steady hR config id address)
    intro size
    apply ih

end Objects

/-- A whole build is steady, however far it gets. -/
theorem build_steady (hR : Build.Enduring R) (config : Config) :
  Steady R (build config)
  := by
  apply Steady.bind hR.toTolerant (Steady.get hR.toTolerant)
  intro start
  apply Steady.bind hR.toTolerant (placeSlots_steady hR.toSlotting start.order)
  intro _
  apply compileObjects_steady hR.toCompiling

end Step

end SpinHub
