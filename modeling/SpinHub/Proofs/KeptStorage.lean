import Mathlib
import SpinHub.Proofs.ImageLayout
import SpinHub.Proofs.InstanceStorage
import SpinHub.Proofs.Phases

/-!
# Kept storage

Instances have storage of their own from the time a program is registered: no phase changes what
an object includes, variables get room in whole longs, and totals are remembered only when all
objects are laid out. Sharing duplicates leaves the declarations alone, so it takes no room away.
-/

namespace SpinHub

/-! ### Phases -/

/-- A phase of the layout and the compilation of one object. -/
inductive Phase where
  | subs (id : ObjId)
  | methods (id : ObjId)
  | hubAddress (id : ObjId) (address : Nat)
  | measure (config : Config) (id : ObjId)
  | vars (id : ObjId)
  | write (config : Config) (id : ObjId)
  | code (config : Config) (id : ObjId)

namespace Phase

/-- What a phase does. -/
def step : Phase → Step Unit
  | subs id => Step.inObject id (Step.placeSubs id)
  | methods id => Step.placeMethods id
  | hubAddress id address =>
    Step.modifyObject id fun object => { object with hubAddress := address }
  | measure config id => Step.measureDat config id
  | vars id => Step.inObject id (Step.placeVars id)
  | write config id => Step.writeDat config id
  | code config id => do let _ ← Step.compileMethods config id

/-- The build that a phase leaves, whether or not it succeeds. -/
def run (build : Build) (phase : Phase) : Build := (phase.step.run.run build).2

end Phase

/-- What every single change keeps to, a phase keeps to. -/
theorem Phase.step_steady {R : Build → Build → Prop} (hR : Build.Enduring R) (phase : Phase) :
  Step.Steady R phase.step
  := by
  cases phase with
  | subs id => apply Step.placeSubs_steady hR.toSlotting id
  | methods id => apply Step.placeMethods_steady hR.toSlotting id
  | hubAddress id address => exact fun s => hR.hubAddress s id address
  | measure config id => apply Step.measureDat_compiling hR.toCompiling config id
  | vars id => apply Step.placeVars_compiling hR.toCompiling id
  | write config id => apply Step.writeDat_steady hR.toTolerant (hR.written id)
  | code config id =>
    apply Step.Steady.bind hR.toTolerant
      (Step.compileMethods_steady hR.toTolerant (hR.compiled id) config)
    intro size
    apply Step.Steady.pure hR.toTolerant

/-- What every change keeps to, phases in any order keep to. -/
theorem Phase.foldl_run_steady {R : Build → Build → Prop} (hR : Build.Enduring R)
    (phases : List Phase) (build : Build) :
  R build (phases.foldl run build)
  := by
  induction phases generalizing build with
  | nil => apply hR.refl
  | cons phase phases ih => apply hR.trans (phase.step_steady hR build) (ih (run build phase))

/-- A relation that holds where a property of builds is kept. -/
def Build.Maintains (holds : Build → Prop) (b b' : Build) : Prop := holds b → holds b'

/-- What holds of a build as long as its objects are unchanged survives remarks and evaluations. -/
theorem Build.Maintains.tolerant {holds : Build → Prop}
    (hunchanged : ∀ {b b'}, b.Unchanged b' → holds b → holds b') :
  Tolerant (Maintains holds)
  where
  refl _ := fun h => h
  trans hab hbc := fun h => hbc (hab h)
  memo b memo := hunchanged (Unchanged.tolerant.memo b memo)
  warn b id pos text := hunchanged (Unchanged.tolerant.warn b id pos text)

/-- What every change keeps, phases in any order keep. -/
theorem Phase.foldl_run_maintains {holds : Build → Prop}
    (hholds : Build.Enduring (Build.Maintains holds)) (phases : List Phase) {build : Build}
    (h : holds build) :
  holds (phases.foldl run build)
  := foldl_run_steady hholds phases build h

/-- What matters of an object for storage: its variables, what takes its place and what it
includes. -/
def Object.stock (object : Object) : Nat × Option ObjId × List ObjId :=
  (object.varSize, object.links)

namespace Build

/-- What holds while objects are laid out and compiled: nothing is shared and no total is
remembered. -/
structure Laying (build : Build) : Prop where
  nonempty : 0 < build.objects.length
  ranked : ∃ rank, Ranked build.objects [] rank
  aligned : ∀ id, 4 ∣ (build.object id).varSize
  unlinked : ∀ id, (build.object id).replacement = none
  totals : build.totals = []

namespace Laying

/-- A registered program has nothing laid out yet. -/
theorem of_registered {build : Build} (h : build.Registered) :
  build.Laying
  := by
  refine ⟨h.nonempty, h.ranked, ?_, fun id => (h.fresh id).replacement, h.totals⟩
  intro id
  rw [(h.fresh id).varSize]
  apply dvd_zero

/-- Phases may give variables room in whole longs, and leave what objects include alone. -/
theorem of_links {b b' : Build} (h : b.Laying) (hlinks : b.KeepsAll Object.links b')
    (haligned : ∀ id, 4 ∣ (b'.object id).varSize) :
  b'.Laying
  := by
  obtain ⟨rank, hranked⟩ := h.ranked
  refine ⟨?_, ⟨rank, hranked.of_links hlinks.toAgree⟩, haligned, ?_, ?_⟩
  · rw [hlinks.length]
    exact h.nonempty
  · intro id
    rw [← h.unlinked id]
    exact congrArg Prod.fst (hlinks.objects id)
  · rw [hlinks.totals, h.totals]

theorem tolerant :
  Tolerant (Maintains Laying)
  := by
  apply Maintains.tolerant
  intro b b' hunchanged h
  apply h.of_links ⟨.of_unchanged hunchanged, hunchanged.totals⟩
  intro id
  rw [hunchanged.object]
  apply h.aligned

/-- A change of one object that gives its variables room in whole longs. -/
theorem modifyObject {b : Build} {id : ObjId} {f : Object → Object} (h : b.Laying)
    (hlinks : (f (b.object id)).links = (b.object id).links)
    (haligned : 4 ∣ (f (b.object id)).varSize) :
  (b.modifyObject id f).Laying
  := by
  apply h.of_links (KeepsAll.of_keeps (Keeps.modifyObject hlinks))
  intro other
  obtain hsame | ⟨rfl, hchanged⟩ := b.object_modifyObject_cases id f other
  · rw [hsame]
    apply h.aligned
  · rw [hchanged]
    exact haligned

theorem admits (id : ObjId) :
  Admits (Maintains Laying) id Object.stock
  := by
  intro b f hf h
  obtain ⟨hsize, hlinks⟩ := Prod.ext_iff.mp hf
  apply h.modifyObject hlinks
  change (f (b.object id)).varSize = (b.object id).varSize at hsize
  rw [hsize]
  apply h.aligned

theorem enduring :
  Enduring (Maintains Laying)
  where
  toTolerant := tolerant
  subSlots b id counts := by
    apply admits id b
    simp only [Object.stock, Object.links, Object.withSubSlots, target_placeSubs]
  table b id slots := admits id b _ rfl
  methodSlots b id := admits id b _ rfl
  hubAddress b id address := admits id b _ rfl
  declared b id _ _ _ := Admits.declared (.of_comp Object.stock (admits id)) b
  vars b id extents _ h := by
    apply h.modifyObject rfl
    apply Nat.dvd_mul_left
  written id := .of_comp Object.stock (admits id)
  compiled id := .of_comp Object.stock (admits id)

/-- While a program is laid out every instance has storage of its own. -/
theorem storage {build : Build} (h : build.Laying) :
  build.Storage
  := by
  have hknown : TotalsKnown build.objects build.totals := by
    rw [h.totals]
    nofun
  apply Stocked.storage ⟨h.nonempty, h.ranked, h.aligned, hknown⟩
  intro id hid
  have hsurvivor : build.survivor id = id := survivorWithin_of_none (h.unlinked id) _
  rw [hsurvivor]
  exact ⟨hid, rfl⟩

end Laying

end Build

/-! ### Linking -/

/-- The build has links made from `laid`, and all objects have had their turn. -/
def Build.Shares (laid build : Build) : Prop := laid.Sharing build []

namespace Build.Shares

variable {laid : Build}

/-- Sharing identical objects leaves every instance its storage. -/
theorem storage {build : Build} (h : laid.Shares build) (hlaid : laid.Laying) :
  build.Storage
  := by
  obtain ⟨rank, hranked⟩ := hlaid.ranked
  have hsame := h.agree.sameInstances
  apply Stocked.storage
  · refine ⟨?_, ⟨rank, h.agree.ranked hranked⟩, ?_, h.totals⟩
    · rw [h.agree.length]
      exact hlaid.nonempty
    · intro id
      have hsize : (build.object id).varSize = (laid.object id).varSize := (hsame.2 id).1
      rw [hsize]
      apply hlaid.aligned
  · intro id hid
    rw [h.survivor]
    cases hlink : (build.object id).replacement with
    | none => exact ⟨hid, rfl⟩
    | some target => exact ⟨(h.target id target hlink).1, (h.alike id target hlink).slots.symm⟩

theorem tolerant :
  Tolerant (Maintains laid.Shares)
  := by
  apply Maintains.tolerant
  intro b b' hunchanged h
  apply h.of_agree (Agree.of_unchanged hunchanged)
  rw [hunchanged.objects, hunchanged.totals]
  exact h.totals

theorem admits (id : ObjId) :
  Admits (Maintains laid.Shares) id Object.unplaced
  := by
  intro b f hf h
  have hkeeps : b.KeepsAll Object.unplaced (b.modifyObject id f) :=
    KeepsAll.of_keeps (Keeps.modifyObject hf)
  apply h.of_agree hkeeps.toAgree
  apply hkeeps.toAgree.of_unplaced.sameInstances.totalsKnown h.totals

/-- Computing totals keeps what is shared. -/
theorem ofState {α : Type} {action : StateM Build α} {a : α} {s : Build}
    (h : laid.Shares s) (haction : Computes s.Knows action a) :
  laid.Shares ((Step.ofState action).run.run s).2
  := by
  obtain ⟨_, totals, hafter, hknown⟩ := haction s ⟨s.totals, rfl, h.totals⟩
  have hrun : ((Step.ofState action).run.run s).2 = (action.run s).2 := rfl
  have hagree : s.Agree Object.unplaced { s with totals } := ⟨fun _ => rfl, rfl, rfl⟩
  rw [hrun, hafter]
  apply h.of_agree hagree hknown

end Build.Shares

namespace Step

section Sharing

open Build

variable {laid : Build} (hlaid : laid.Laid)

theorem assignAddresses_sharing (address : Nat) (ids : List ObjId) :
  Steady (Maintains laid.Shares) (assignAddresses address ids)
  := by
  induction ids generalizing address with
  | nil => apply Steady.pure Shares.tolerant
  | cons id rest ih =>
    apply Steady.bind Shares.tolerant
    · intro s
      apply Shares.admits id s
      rfl
    · intro _
      apply Steady.bind Shares.tolerant (Steady.object Shares.tolerant id)
      intro object
      apply ih

include hlaid

theorem blocks_sharing {ids : List ObjId} (hids : ∀ id ∈ ids, id < laid.objects.length) :
  Steady (Maintains laid.Shares) (blocks ids)
  := by
  obtain ⟨rank, hranked⟩ := hlaid.ranked
  apply Steady.mapM Shares.tolerant
  intro id hid
  apply Steady.bind Shares.tolerant (Steady.object Shares.tolerant id)
  intro object
  apply Steady.bind Shares.tolerant
  · intro s h
    apply Shares.ofState h
    apply block_computes_at (h.agree.ranked hranked)
    rw [h.agree.length]
    apply hids id hid
  · intro block
    apply Steady.pure Shares.tolerant

theorem totalVarSize_sharing :
  Steady (Maintains laid.Shares) (ofState (totalVarSize root))
  := by
  obtain ⟨rank, hranked⟩ := hlaid.ranked
  intro s h
  apply Shares.ofState h
  apply totalVarSize_computes (h.agree.ranked hranked)
  rw [h.agree.length]
  exact hlaid.nonempty

/-- Writing the image keeps a build shared, however far it gets. -/
theorem image_sharing (config : Config) :
  Steady (Maintains laid.Shares) (image config)
  := by
  have hR : Tolerant (Maintains laid.Shares) := Shares.tolerant
  -- a check changes nothing
  have check {α : Type} {c : Prop} [Decidable c] {pos : Pos} {cause : Cause} {k : Unit → Step α}
      (hk : Steady (Maintains laid.Shares) (k ())) :
      Steady (Maintains laid.Shares)
        (if c then failAt pos cause >>= k else k ()) := by
    split_ifs
    · apply Steady.failAt hR
    · exact hk
  apply Steady.bind hR (reserved_steady hR)
  intro reserved s h
  rw [run_get_bind]
  have hids : ∀ id ∈ s.survivors, id < laid.objects.length := by
    intro id hid
    rw [← h.agree.length]
    exact (((survivors_spec (h.order hlaid)).2 id).mp hid).1
  apply Steady.bind hR (assignAddresses_sharing _ _) _ s h
  intro finish
  apply check
  apply Steady.bind hR (blocks_sharing hlaid hids)
  intro blocks
  apply Steady.bind hR (Steady.liftAt hR _ _)
  intro memory
  apply Steady.bind hR (clock_steady hR)
  intro clock
  apply Steady.bind hR (totalVarSize_sharing hlaid)
  intro varBytes
  apply Steady.bind hR (Steady.evaluateIn hR _ _)
  intro free
  apply Steady.bind hR (Steady.evaluateIn hR _ _)
  intro stack
  apply Steady.bind hR (Steady.liftAt hR _ _)
  intro _
  apply check
  apply Steady.bind hR (Steady.get hR)
  intro build
  dsimp only
  split
  · apply Steady.failAt hR
  · apply Steady.bind hR (Steady.liftAt hR _ _)
    intro memory
    apply Steady.bind hR (Steady.liftAt hR _ _)
    intro memory
    apply Steady.pure hR

/-- Linking keeps the storage of what was laid out. -/
theorem link_sharing (config : Config) :
  laid.Shares ((link config).run.run laid).2
  := by
  rw [link]
  cases config.shareDuplicates with
  | false => apply image_sharing hlaid config laid (Sharing.of_laid hlaid [])
  | true => apply image_sharing hlaid config _ (shareDuplicates_sharing hlaid)

end Sharing

end Step

/-- The build that the compilation to an image leaves, whether or not it succeeds. -/
def Build.compiled (build : Build) (config : Config) : Build :=
  ((do Step.build config; Step.link config : Step Image).run.run build).2

/-- A compilation ends while objects are laid out and compiled, or with links made from what was
laid out. -/
theorem Program.compiled_cases {program : Program} {registered : Build}
    (h : program.register = .ok registered) (config : Config) :
  (∃ fault, Fails (Step.build config) registered fault (registered.compiled config))
    ∨ ∃ u laid, Yields (Step.build config) registered u laid
      ∧ laid.Shares (registered.compiled config)
  := by
  rw [Build.compiled, run_bind]
  rcases hbuild : (Step.build config).run.run registered with ⟨fault | u, laid⟩
  · exact .inl ⟨fault, hbuild⟩
  · have hlaid := Step.build_laid (register_spec h) hbuild
    exact .inr ⟨u, laid, hbuild, Step.link_sharing hlaid config⟩

/-- However far a registered program gets, its instances have storage of their own: after any phases
in any order, and when its compilation ends. -/
theorem Program.instances_apart {program : Program} {registered : Build}
    (h : program.register = .ok registered) :
  (∀ phases : List Phase, (phases.foldl Phase.run registered).Storage)
    ∧ ∀ config, (registered.compiled config).Storage
  := by
  have hlaying := Build.Laying.of_registered (register_spec h)
  constructor
  · intro phases
    apply (Phase.foldl_run_maintains Build.Laying.enduring phases hlaying).storage
  · intro config
    have hbuild := Step.build_steady Build.Laying.enduring config
    obtain ⟨fault, hfails⟩ | ⟨u, laid, hyields, hshares⟩ := compiled_cases h config
    · apply (hbuild.fails hfails hlaying).storage
    · apply hshares.storage (hbuild.yields hyields hlaying)

/-- A root with an array of sub-objects, each with an instance of its own inside, a pointer, and a
duplicate of what stands inside. -/
def nestedProgram : Program :=
  let run : MethodDecl := { name := { name := "run" }, isPublic := true }
  { root := "top"
    objects := [
      { file := "top", methods := [run]
        vars := [{ name := { name := "flag" }, size := .byte }]
        objs := [
          { name := { name := "pair" }, file := { name := "node" }, count := some (.int {} 2) },
          { name := { name := "link" }, file := { name := "node" }, pointer := true },
          { name := { name := "last" }, file := { name := "twin" } }] },
      { file := "node", methods := [run]
        vars := [{ name := { name := "state" }, size := .word, dims := [.int {} 3] }]
        objs := [{ name := { name := "inner" }, file := { name := "leaf" } }] },
      { file := "leaf", methods := [run]
        vars := [{ name := { name := "count" }, size := .long }] },
      { file := "twin", methods := [run]
        vars := [{ name := { name := "count" }, size := .long }] }] }

/-- The instance inside the second of the pair has its variables behind all others of the pair, the
pointer has none, and the duplicate has room of its own though its block is shared. -/
theorem Program.instances_apart_nested :
  ∃ registered, nestedProgram.register = .ok registered
    ∧ (registered.compiled { memorySize := 256 }).instanceAt? [1, 0] = some ⟨2, 24⟩
    ∧ (registered.compiled { memorySize := 256 }).instanceAt? [2] = none
    ∧ (registered.compiled { memorySize := 256 }).instanceAt? [3] = some ⟨3, 28⟩
    ∧ (registered.compiled { memorySize := 256 }).survivor 2 = 3
    ∧ (registered.compiled { memorySize := 256 }).totals.lookup Build.root = some 32
    ∧ (∀ phases : List Phase, (phases.foldl Phase.run registered).Storage)
    ∧ ∀ config, (registered.compiled config).Storage
  := by
  obtain ⟨registered, h, hinner, hpointer, hlast, hshared, htotal⟩ :
      ∃ registered, nestedProgram.register = .ok registered
        ∧ (registered.compiled { memorySize := 256 }).instanceAt? [1, 0] = some ⟨2, 24⟩
        ∧ (registered.compiled { memorySize := 256 }).instanceAt? [2] = none
        ∧ (registered.compiled { memorySize := 256 }).instanceAt? [3] = some ⟨3, 28⟩
        ∧ (registered.compiled { memorySize := 256 }).survivor 2 = 3
        ∧ (registered.compiled { memorySize := 256 }).totals.lookup Build.root = some 32 := by
    decide +kernel
  exact ⟨registered, h, hinner, hpointer, hlast, hshared, htotal, Program.instances_apart h⟩

end SpinHub
