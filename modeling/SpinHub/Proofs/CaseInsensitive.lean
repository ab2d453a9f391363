import Mathlib
import SpinHub.Compilation
import SpinHub.Proofs.KeyedDat
import SpinHub.Proofs.KeyedImages
import SpinHub.Proofs.KeyedRegistration

/-!
# Compilation ignores case

Programs that are the same once their names are keyed compile alike: both to the same image and the
same containers, or both to faults of one kind at one place. Every phase runs in parallel on builds
that are the same up to case, and registration gives two such builds.
-/

namespace SpinHub

/-! ### Phases -/

namespace Step

theorem placeSlots_ignoresCase (ids : List ObjId) :
  IgnoresCase (placeSlots ids)
  := by
  apply IgnoresCase.forM
  intro id
  exact (inObject_parallel id (placeSubs_ignoresCase id)).andThen (placeMethods_ignoresCase id)

/-- Compiling an object ignores case, phase by phase. -/
theorem compileObject_ignoresCase (config : Config) (id : ObjId) (address : Nat) :
  IgnoresCase (compileObject config id address)
  := by
  refine Parallel.andThen (modifyObject_ignoresCase id fun _ => rfl) ?_
  refine Parallel.andThen (measureDat_ignoresCase config id) ?_
  refine Parallel.andThen (inObject_parallel id (placeVars_ignoresCase id)) ?_
  refine Parallel.andThen (writeDat_ignoresCase config id) ?_
  exact compileMethods_ignoresCase config id

theorem compileObjects_ignoresCase (config : Config) (ids : List ObjId) (address : Nat) :
  IgnoresCase (compileObjects config address ids)
  := by
  induction ids generalizing address with
  | nil => exact Parallel.pure rfl
  | cons id rest ih =>
    apply Parallel.bind (compileObject_ignoresCase config id address)
    rintro size _ rfl
    exact ih _

/-- Laying out and compiling a build ignores case. -/
theorem build_ignoresCase (config : Config) :
  IgnoresCase (build config)
  := by
  apply Parallel.bind Parallel.get
  intro b b' h
  rw [h.order]
  exact (placeSlots_ignoresCase _).andThen (compileObjects_ignoresCase config _ _)

/-- Linking ignores case: the image is the same in all spellings. -/
theorem link_ignoresCase (config : Config) :
  IgnoresCase (link config)
  := by
  rw [link]
  split_ifs
  · exact (ofState_parallel Build.shareDuplicates_abreast).andThen (image_ignoresCase config)
  · exact image_ignoresCase config

end Step

/-! ### Programs -/

/-- The containers of objects, written one after another. -/
def Build.containers (build : Build) (ids : List ObjId) : Except Fault (List Bytes) :=
  ((ids.mapM fun id => Container.bytes <$> Step.evaluateIn id Site.container).run.run build).1

/-- Two compilations give the same image, and objects in the same order whose files and containers
are the same up to the case of the files' names. -/
structure SameProducts (product product' : Image × Build) : Prop where
  image : product.1 = product'.1
  order : product.2.order = product'.2.order
  files : product.2.files.map nameKey = product'.2.files.map nameKey
  containers : ∀ ids, SameOutcome Eq (product.2.containers ids) (product'.2.containers ids)

/-- The containers of a build are the same in all spellings. -/
theorem Build.Respelled.containers {build build' : Build} (h : build.Respelled build')
    (ids : List ObjId) :
  SameOutcome Eq (build.containers ids) (build'.containers ids)
  := by
  have hids : Step.IgnoresCase
      (ids.mapM fun id => Container.bytes <$> Step.evaluateIn id Site.container) := by
    apply Step.IgnoresCase.mapM
    intro id
    apply Parallel.map (Step.evaluateIn_parallel id fun _ _ => Site.container_alike)
    rintro container _ rfl
    rfl
  exact (hids build build' h).1

theorem Build.Respelled.files {build build' : Build} (h : build.Respelled build') :
  build.files.map nameKey = build'.files.map nameKey
  := by
  simp only [Build.files, List.map_map, Function.comp_def, h.order, h.file]

/-- Programs that differ in nothing but the case of identifiers, file names and mnemonics compile
alike. -/
theorem Program.compile_ignores_case {p q : Program} (h : p.keyed = q.keyed) (config : Config) :
  SameOutcome SameProducts (p.compile config) (q.compile config)
  := by
  apply SameOutcome.bind (Program.register_alike h)
  intro build build' hbuild
  have hrun : Step.IgnoresCase (do Step.build config; Step.link config) :=
    (Step.build_ignoresCase config).andThen (Step.link_ignoresCase config)
  obtain ⟨himage, hlinked⟩ := hrun build build' hbuild
  apply SameOutcome.bind himage
  rintro image _ rfl
  exact .ok ⟨rfl, hlinked.order, hlinked.files, hlinked.containers⟩

/-- A program that calls a method of an included object and a subroutine with a local label, with
the names as they are spelled where they are declared and where they are used. -/
def spelledProgram (root part method routine ret mnemonic : String) : Program :=
  { root
    objects := [
      { file := "Top.spin"
        objs := [{ name := { name := "unit" }, file := { name := part } }]
        methods := [{ name := { name := "run" }, isPublic := true
                      body := [.exp {} (.call {} (some "Unit") none method [] false)] }]
        dat := [.org {} none, .label { name := routine } 0, .label { name := ":again" } 0,
          .instruction { pos := {}, mnemonic := "jmp", opcode := 0x5c000000, condition := 15
                         source := some (.name {} ":AGAIN"), immediate := true },
          .label { name := ret } 0,
          .instruction { pos := {}, mnemonic, opcode := 0x5c800000, condition := 15
                         source := some (.name {} "Routine"), immediate := true }] },
      { file := "Part", methods := [{ name := { name := "Go" }, isPublic := true }] }] }

/-- Spellings of its names give programs that are the same up to case. -/
theorem spelledProgram_alike {root root' part part' method method' routine routine' ret ret'
    mnemonic mnemonic' : String} (hroot : nameKey root = nameKey root')
    (hpart : nameKey part = nameKey part') (hmethod : nameKey method = nameKey method')
    (hroutine : nameKey routine = nameKey routine') (hret : nameKey ret = nameKey ret')
    (hmnemonic : nameKey mnemonic = nameKey mnemonic') :
  (spelledProgram root part method routine ret mnemonic).keyed
    = (spelledProgram root' part' method' routine' ret' mnemonic').keyed
  := by
  simp only [spelledProgram, Program.keyed, List.map_cons, List.map_nil, SourceObject.keyed,
    ObjDecl.keyed, MethodDecl.keyed, DatEntry.keyed, Instruction.keyed, Ident.keyed,
    Stmt.keyedBlock, Stmt.keyed, Exp.keyed, hroot, hpart, hmethod, hroutine, hret, hmnemonic]

/-- The call writes the address of the routine's end into its destination field, bits 9 to 17. -/
theorem Program.compile_ignores_case_spelled :
  ∃ image build build',
    (spelledProgram "TOP" "part.SPIN" "GO" "routine" "ROUTINE_RET" "Call").compile
        { memorySize := 128 } = .ok (image, build)
    ∧ (spelledProgram "top" "Part.spin" "gO" "ROUTINE" "routine_Ret" "cALL").compile
        { memorySize := 128 } = .ok (image, build')
    ∧ (image.memory.drop 32).take 4 = [0x00, 0x02, 0xfc, 0x5c]
    ∧ SameProducts (image, build) (image, build')
  := by
  have hkeyed := @spelledProgram_alike "TOP" "top" "part.SPIN" "Part.spin" "GO" "gO" "routine"
    "ROUTINE" "ROUTINE_RET" "routine_Ret" "Call" "cALL" (by decide +kernel) (by decide +kernel)
    (by decide +kernel) (by decide +kernel) (by decide +kernel) (by decide +kernel)
  have hsame := Program.compile_ignores_case hkeyed { memorySize := 128 }
  obtain ⟨⟨image, build⟩, h, hjump⟩ :
      ∃ result, (spelledProgram "TOP" "part.SPIN" "GO" "routine" "ROUTINE_RET" "Call").compile
          { memorySize := 128 } = .ok result
        ∧ (result.1.memory.drop 32).take 4 = [0x00, 0x02, 0xfc, 0x5c] := by
    decide +kernel
  rw [h] at hsame
  obtain ⟨⟨image', build'⟩, hproduct, hproducts⟩ := hsame.of_ok
  have himage := hproducts.image
  cases himage
  exact ⟨image, build, build', h, hproduct, hjump, hproducts⟩

end SpinHub
