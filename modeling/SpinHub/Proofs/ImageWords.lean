import Mathlib
import SpinHub.Proofs.ImageLayout

/-!
# The words of an image

Index assignment, compilation, sharing and the writing of blocks agree: read back from an image,
the slot of a method leads to its code, the slot of an instance to the block of the object that
it calls into, and the DAT section stands where its labels say. Offsets are stored modulo 2^16;
the variables of an object that is only pointed to may begin beyond that.
-/

namespace SpinHub

open Bytes

/-- The number in a slot that holds two bytes of an integer. -/
theorem Image.halfwordAt_of_holds {image : Image} {address : Nat} {n : Int}
    (h : image.memory.Holds address (halfword n)) :
  (image.halfwordAt address : Int) = n % 65536
  := by
  have hlow : image.memory[address + 0]? = some (lowByte n) := h.getElem? (by simp)
  have hhigh : image.memory[address + 1]? = some (highByte n) := h.getElem? (by simp)
  rw [Nat.add_zero] at hlow
  rw [Image.halfwordAt, hlow, hhigh, Option.getD_some, Option.getD_some]
  push_cast
  rw [toNat_lowByte, toNat_highByte]
  omega

/-- What stands in an image for an object: the slots of its methods lead to their code, the slots
of its instances to the blocks of the objects they call into and to their variables, and the DAT
section stands behind the table, so that the offset of a label is its place in the block. Sixteen
bits are stored of a number. -/
structure Image.Describes (image : Image) (build : Build) (id : ObjId) : Prop where
  methods : ∀ method ∈ (build.object id).methods,
    image.halfwordAt ((build.object id).address + 4 * method.index) = method.offset
      ∧ image.halfwordAt ((build.object id).address + 4 * method.index + 2)
        = method.localsSize % 65536
      ∧ image.memory.Holds ((build.object id).address + method.offset) method.code
  instances : ∀ sub ∈ (build.object id).subs, ∀ k < sub.count,
    ((build.object id).address
        + image.halfwordAt ((build.object id).address + 4 * (sub.index + k))) % 65536
        = (build.object (build.survivor sub.target)).address
      ∧ ∃ offset, ((Build.entries id).run build).1[sub.index + k
            - ((build.object id).methods.length + 1)]? = some (build.survivor sub.target, offset)
        ∧ image.halfwordAt ((build.object id).address + 4 * (sub.index + k) + 2) = offset % 65536
  dat : image.memory.Holds ((build.object id).address + (build.object id).headerSize)
    (build.object id).datBytes
  labels : ∀ label ∈ (build.object id).labels, (build.object id).headerSize ≤ label.offset
    ∧ label.offset ≤ (build.object id).headerSize + (build.object id).datBytes.length
    ∧ image.memory.Holds ((build.object id).address + label.offset)
      ((build.object id).datBytes.drop (label.offset - (build.object id).headerSize))

/-- A method starts inside its object. -/
theorem Object.Compiled.offset_le {object : Object} (h : object.Compiled) {method : Method}
    (hmethod : method ∈ object.methods) :
  method.offset ≤ object.size
  := by
  rw [← object.methodTable_perm.mem_iff] at hmethod
  obtain ⟨i, hi⟩ := List.mem_iff_getElem?.mp hmethod
  have hsplit := congrArg (fun table => (table.flatMap (·.code)).length)
    (List.take_append_drop i object.methodTable)
  simp only [List.flatMap_append, List.length_append] at hsplit
  rw [h.code.offset hi, h.size]
  apply Nat.le_trans _ (Build.le_roundLong _)
  omega

/-- Laid out objects stay so when they are linked. -/
theorem Object.Compiled.of_unlinked {object object' : Object} (h : object.Compiled)
    (heq : object'.unlinked = object.unlinked) :
  object'.Compiled
  := by
  have hsame : object'.unlinked.Compiled := by
    rw [heq]
    exact ⟨⟨h.methods, h.subs, h.subSlots, h.headerSize, h.fewSubs, h.fewMethods⟩, h.labels,
      h.code, h.size⟩
  exact ⟨⟨hsame.methods, hsame.subs, hsame.subSlots, hsame.headerSize, hsame.fewSubs,
    hsame.fewMethods⟩, hsame.labels, hsame.code, hsame.size⟩

namespace Linked

variable {laid build : Build} {image : Image}

section Laid

variable (hlaid : laid.Laid) (h : Linked laid image build)

include hlaid h

theorem compiled {id : ObjId} (hid : id < build.objects.length) :
  (build.object id).Compiled
  := by
  rw [h.sharing.agree.length] at hid
  apply (hlaid.compiled id hid).of_unlinked (h.sharing.agree.objects id)

/-- The slots that are computed for an object of the final build. -/
theorem entries_eq {id : ObjId} (hid : id < build.objects.length) :
  ((Build.entries id).run build).1 = build.slots id
  := by
  obtain ⟨rank, hranked⟩ := hlaid.ranked
  have hcomputes := Build.entries_computes (h.sharing.agree.ranked hranked) hid
  apply (hcomputes build ⟨build.totals, rfl, h.sharing.totals⟩).1

theorem target {id : ObjId} (hid : id < build.objects.length) {sub : SubObject}
    (hsub : sub ∈ (build.object id).subs) :
  sub.target < build.objects.length
  := by
  obtain ⟨rank, hranked⟩ := hlaid.ranked
  apply ((h.sharing.agree.ranked hranked).target hid hsub).1

variable {id : ObjId} (hid : id < build.objects.length)
  (hsurvives : (build.object id).replacement = none)

include hid hsurvives

theorem method_words (hbase : image.varBase < 65536) {method : Method}
    (hmethod : method ∈ (build.object id).methods) :
  image.halfwordAt ((build.object id).address + 4 * method.index) = method.offset
    ∧ image.halfwordAt ((build.object id).address + 4 * method.index + 2)
      = method.localsSize % 65536
    ∧ image.memory.Holds ((build.object id).address + method.offset) method.code
  := by
  have hcompiled := h.compiled hlaid hid
  have hblock := h.holds id hid hsurvives
  obtain ⟨hslot, hcode⟩ := Build.blockOf_method hcompiled hmethod
  obtain ⟨hoffset, hlocals⟩ := holds_append.mp (hblock.inside hslot)
  have hoffsetWord := Image.halfwordAt_of_holds hoffset
  have hlocalsWord := Image.halfwordAt_of_holds hlocals
  have hinside := hcompiled.offset_le hmethod
  have hbelow := h.below id hid hsurvives
  rw [length_halfword] at hlocalsWord
  exact ⟨by omega, by omega, hblock.inside hcode⟩

theorem instance_words (hbase : image.varBase < 65536) {sub : SubObject}
    (hsub : sub ∈ (build.object id).subs) {k : Nat} (hk : k < sub.count) :
  ((build.object id).address
      + image.halfwordAt ((build.object id).address + 4 * (sub.index + k))) % 65536
      = (build.object (build.survivor sub.target)).address
    ∧ ∃ offset, ((Build.entries id).run build).1[sub.index + k
          - ((build.object id).methods.length + 1)]? = some (build.survivor sub.target, offset)
      ∧ image.halfwordAt ((build.object id).address + 4 * (sub.index + k) + 2) = offset % 65536
  := by
  have hblock := h.holds id hid hsurvives
  obtain ⟨i, hi⟩ := List.mem_iff_getElem?.mp hsub
  obtain ⟨offset, hentry, hslot⟩ := Build.blockOf_instance (h.compiled hlaid hid) hi hk
  obtain ⟨haddress, hoffset⟩ := holds_append.mp (hblock.inside hslot)
  have haddressWord := Image.halfwordAt_of_holds haddress
  have hoffsetWord := Image.halfwordAt_of_holds hoffset
  -- the relative address is taken modulo 2^16, and the block it leads to ends below that
  obtain ⟨htarget, hnone⟩ := h.sharing.survivor_free (h.target hlaid hid hsub)
  have hbelow := h.below _ htarget hnone
  rw [length_halfword] at hoffsetWord
  rw [h.entries_eq hlaid hid]
  refine ⟨?_, offset, hentry, by omega⟩
  dsimp only at haddressWord
  omega

theorem dat_bytes :
  image.memory.Holds ((build.object id).address + (build.object id).headerSize)
    (build.object id).datBytes
  := by
  obtain ⟨_, _, _, hdat, _⟩ := Build.blockOf_holds (h.compiled hlaid hid)
  apply (h.holds id hid hsurvives).inside hdat

theorem label_bytes {label : Label} (hlabel : label ∈ (build.object id).labels) :
  (build.object id).headerSize ≤ label.offset
    ∧ label.offset ≤ (build.object id).headerSize + (build.object id).datBytes.length
    ∧ image.memory.Holds ((build.object id).address + label.offset)
      ((build.object id).datBytes.drop (label.offset - (build.object id).headerSize))
  := by
  obtain ⟨hfirst, hlast⟩ := (h.compiled hlaid hid).labels label hlabel
  have hrest := (h.dat_bytes hlaid hid hsurvives).inside (List.prefix_refl
    ((build.object id).datBytes.drop (label.offset - (build.object id).headerSize)))
  have hplace : (build.object id).address + (build.object id).headerSize
      + (label.offset - (build.object id).headerSize)
      = (build.object id).address + label.offset := by
    omega
  rw [hplace] at hrest
  exact ⟨hfirst, hlast, hrest⟩

end Laid

end Linked

/-- Every image that a program is compiled to within 32 bits describes all objects that were not
replaced, whether or not duplicates are shared. -/
theorem Program.compile_describes {program : Program} {config : Config} {image : Image}
    {build : Build} (h : program.compile config = .ok (image, build))
    (hsize : config.memorySize < 65536) (hexact : build.Exact) {id : ObjId}
    (hid : id < build.objects.length) (hsurvives : (build.object id).replacement = none) :
  image.Describes build id
  := by
  obtain ⟨registered, laid, _, _, hlink, hlaid⟩ := compile_spec h
  obtain ⟨hlinked, hbase⟩ := Step.link_linked hlaid hlink hsize hexact
  exact
    { methods := fun _ hmethod => hlinked.method_words hlaid hid hsurvives hbase hmethod
      instances := fun _ hsub _ hk => hlinked.instance_words hlaid hid hsurvives hbase hsub hk
      dat := hlinked.dat_bytes hlaid hid hsurvives
      labels := fun _ hlabel => hlinked.label_bytes hlaid hid hsurvives hlabel }

/-- A program with a private method in front of a public one, a DAT section, an array of
sub-objects and, under another name, a duplicate of them. -/
def twinProgram : Program :=
  let run : MethodDecl := { name := { name := "run" }, isPublic := true }
  { root := "top"
    objects := [
      { file := "top"
        objs := [
          { name := { name := "pair" }, file := { name := "left" }, count := some (.int {} 2) },
          { name := { name := "single" }, file := { name := "right" } }]
        methods := [
          { name := { name := "wait" }, isPublic := false
            locals := [{ name := { name := "n" } }] },
          { name := { name := "start" }, isPublic := true
            body := [.exp {} (.call {} (some "single") none "run" [] false)] }]
        dat := [.label { name := "table" } 4,
          .data { pos := {}, alignment := 4, size := 4, value := .int {} 7 },
          .label { name := "tail" } 1,
          .data { pos := {}, alignment := 1, size := 1, value := .int {} 3 }] },
      { file := "left", methods := [run]
        vars := [{ name := { name := "count" }, size := .long }] },
      { file := "right", methods := [run]
        vars := [{ name := { name := "count" }, size := .long }] }] }

/-- The twins share one block, and the image describes the root that calls into it. -/
theorem Program.compile_describes_twin :
  ∃ image build, twinProgram.compile { memorySize := 256 } = .ok (image, build)
    ∧ build.Exact ∧ (build.object 1).replacement = some 2 ∧ 0 < build.objects.length
    ∧ (build.object 0).replacement = none ∧ image.Describes build 0
  := by
  obtain ⟨⟨image, build⟩, h, hexact, hlink, hid, hsurvives⟩ :
      ∃ result, twinProgram.compile { memorySize := 256 } = .ok result ∧ result.2.Exact
        ∧ (result.2.object 1).replacement = some 2 ∧ 0 < result.2.objects.length
        ∧ (result.2.object 0).replacement = none := by
    decide +kernel
  exact ⟨image, build, h, hexact, hlink, hid, hsurvives,
    Program.compile_describes h (by decide) hexact hid hsurvives⟩

/-- A program whose root points to an object with more variables than sixteen bits can count. -/
def pointingProgram : Program :=
  let run : MethodDecl := { name := { name := "run" }, isPublic := true }
  { root := "top"
    objects := [
      { file := "top", methods := [run]
        objs := [{ name := { name := "far" }, file := { name := "big" }, pointer := true }] },
      { file := "big", methods := [run]
        vars := [{ name := { name := "store" }, size := .long, dims := [.int {} 20000] }]
        objs := [{ name := { name := "near" }, file := { name := "leaf" } }] },
      { file := "leaf", methods := [run] }] }

/-- The word behind the address of an instance is not always the offset of its variables: the
object that is pointed to needs no memory for its own. -/
theorem Program.varOffset_beyond_word :
  ∃ image build, pointingProgram.compile { memorySize := 128 } = .ok (image, build)
    ∧ 1 < build.objects.length ∧ (build.object 1).replacement = none
    ∧ ∃ sub ∈ (build.object 1).subs, 0 < sub.count
      ∧ ∃ offset, ((Build.entries 1).run build).1[sub.index + 0
            - ((build.object 1).methods.length + 1)]? = some (build.survivor sub.target, offset)
        ∧ image.halfwordAt ((build.object 1).address + 4 * (sub.index + 0) + 2) ≠ offset
  := by
  obtain ⟨⟨image, build⟩, h, hid, hsurvives, sub, hsub, hcount, hentry, hword⟩ :
      ∃ result, pointingProgram.compile { memorySize := 128 } = .ok result
        ∧ 1 < result.2.objects.length ∧ (result.2.object 1).replacement = none
        ∧ ∃ sub ∈ (result.2.object 1).subs, 0 < sub.count
          ∧ ((Build.entries 1).run result.2).1[sub.index + 0
              - ((result.2.object 1).methods.length + 1)]?
            = some (result.2.survivor sub.target, 80000)
          ∧ result.1.halfwordAt ((result.2.object 1).address + 4 * (sub.index + 0) + 2)
            ≠ 80000 := by
    decide +kernel
  exact ⟨image, build, h, hid, hsurvives, sub, hsub, hcount, 80000, hentry, hword⟩

/-- A program whose variables take all but twelve of the bytes that 32 bits can count. -/
def wrappedProgram : Program :=
  { root := "top"
    objects := [
      { file := "top", methods := [{ name := { name := "run" }, isPublic := true }]
        vars := [{ name := { name := "store" }, size := .long, dims := [.int {} 1073741821] }] }] }

/-- The end of these variables is reckoned to lie in front of the blocks, the guard is written over
the table of the root, and the image does not describe it. -/
theorem Program.guard_over_table :
  ∃ image build, wrappedProgram.compile { memorySize := 4096 } = .ok (image, build)
    ∧ ¬ build.Exact ∧ 0 < build.objects.length ∧ (build.object 0).replacement = none
    ∧ ¬ image.Describes build 0
  := by
  obtain ⟨⟨image, build⟩, h, hlarge, hid, hsurvives, method, hmethod, hword⟩ :
      ∃ result, wrappedProgram.compile { memorySize := 4096 } = .ok result ∧ ¬ result.2.Exact
        ∧ 0 < result.2.objects.length ∧ (result.2.object 0).replacement = none
        ∧ ∃ method ∈ (result.2.object 0).methods,
          result.1.halfwordAt ((result.2.object 0).address + 4 * method.index) ≠ method.offset := by
    decide +kernel
  exact ⟨image, build, h, hlarge, hid, hsurvives,
    fun hdescribes => hword (hdescribes.methods method hmethod).1⟩

end SpinHub
