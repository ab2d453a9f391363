import Mathlib
import SpinHub.Proofs.CountedSlots
import SpinHub.Proofs.ImageWords

/-!
# Operands of calls

A call into a sub-object names the slot of the object in one byte. The byte is the number of the
slot exactly if the number is at most 255, and then that slot leads to the object. The methods and
the instances of an object are counted apart, each up to 255, so a table may be longer than a byte
can count: the call then goes to another slot.
-/

namespace SpinHub

open Bytes

theorem toNat_lowByte_eq_iff (n : Nat) :
  (lowByte n).toNat = n ↔ n ≤ 255
  := by
  have hbyte := toNat_lowByte n
  omega

/-! ### Calls into sub-objects -/

section Lookup

variable {σ : Type} {objects : List Object} {site : Site} {id : ObjId} {scope : Scope}
  {name : String} {pos : Pos} {meaning : Meaning} {s s' : σ}

theorem Site.yields_lookupIn :
  Yields (site.lookupIn id scope name pos) s meaning s'
    ↔ SpinHub.lookup? site.objects id scope name = some meaning ∧ s' = s
  := by
  rw [Site.lookupIn]
  cases hlookup : SpinHub.lookup? site.objects id scope name with
  | none =>
    constructor
    · intro h
      cases yields_failAt h
    · rintro ⟨h, _⟩
      cases h
  | some found =>
    rw [yields_pure, Option.some_inj, eq_comm]

/-- A name stands for a slot of the frame, for a symbol of the object or for a file. -/
theorem meaning_of_lookup (h : lookup? objects id scope name = some meaning) :
  (∃ offset, meaning = .slot offset) ∨ (∃ file, meaning = .file file)
    ∨ ∃ ref, (objectAt objects id).meaning? id ref = some meaning
  := by
  rw [lookup?] at h
  cases hslot : scope.lookup ((objectAt objects id).key name) with
  | some offset =>
    rw [hslot, Option.some_inj] at h
    exact .inl ⟨offset, h.symm⟩
  | none =>
    rw [hslot] at h
    cases hfind : (objectAt objects id).find? ((objectAt objects id).key name) with
    | none =>
      rw [hfind] at h
      obtain ⟨file, _, heq⟩ := Option.map_eq_some_iff.mp h
      exact .inr (.inl ⟨file, heq.symm⟩)
    | some ref =>
      rw [hfind] at h
      exact .inr (.inr ⟨ref, h⟩)

/-- A name that stands for a sub-object stands for one that the object declares. -/
theorem sub_mem_of_lookup {sub : SubObject}
    (h : lookup? objects id scope name = some (.sub sub)) :
  sub ∈ (objectAt objects id).subs
  := by
  obtain ⟨_, heq⟩ | ⟨_, heq⟩ | ⟨ref, href⟩ := meaning_of_lookup h
  · cases heq
  · cases heq
  · cases ref with
    | sub i =>
      obtain ⟨found, hfound, heq⟩ := Option.map_eq_some_iff.mp href
      cases heq
      apply List.mem_of_getElem? hfound
    | con i | label i | var i | method i =>
      obtain ⟨_, _, heq⟩ := Option.map_eq_some_iff.mp href
      cases heq

/-- A name that stands for a label stands for one of the object. -/
theorem label_mem_of_lookup {label : Label}
    (h : lookup? objects id scope name = some (.label label)) :
  label ∈ (objectAt objects id).labels
  := by
  obtain ⟨_, heq⟩ | ⟨_, heq⟩ | ⟨ref, href⟩ := meaning_of_lookup h
  · cases heq
  · cases heq
  · cases ref with
    | label i =>
      obtain ⟨found, hfound, heq⟩ := Option.map_eq_some_iff.mp href
      cases heq
      apply List.mem_of_getElem? hfound
    | con i | sub i | var i | method i =>
      obtain ⟨_, _, heq⟩ := Option.map_eq_some_iff.mp href
      cases heq

end Lookup

/-- The opcode of a call into a sub-object, which tells whether an index is on the stack. -/
def callOpcode (indexed : Bool) : UInt8 := if indexed then 0x07 else 0x06

/-- A call into a sub-object pushes the index, if there is one, and then writes its opcode, the
low byte of the sub-object's first slot and the low byte of the method's slot. -/
theorem Site.yields_callSub {site : Site} {pos : Pos} {object name : String}
    {index : Option (Emit Unit)} {arguments : Nat} {draft draft' : Draft} {u : Unit}
    (h : Yields (site.callSub pos object name index arguments) draft u draft') :
  ∃ sub ∈ site.object.subs, site.lookup? object = some (.sub sub)
    ∧ ∃ callee, SpinHub.lookup? site.objects sub.target [] name = some (.method callee)
      ∧ Yields (do
          index.forM (m := Emit) fun push => push
          Emit.code [callOpcode index.isSome, lowByte sub.index, lowByte callee.index])
        draft () draft'
  := by
  obtain ⟨meaning, m, hlookup, hrest⟩ := yields_bind.mp h
  obtain ⟨hnamed, rfl⟩ := Site.yields_lookupIn.mp hlookup
  cases meaning with
  | slot | con | label | var | method | file => cases yields_failAt hrest
  | sub sub =>
    refine ⟨sub, sub_mem_of_lookup hnamed, hnamed, ?_⟩
    obtain ⟨callee, m, hlookup', hrest⟩ := yields_bind.mp hrest
    obtain ⟨hcallee, rfl⟩ := Site.yields_lookupIn.mp hlookup'
    cases callee with
    | slot | con | label | var | sub | file => cases yields_failAt hrest
    | method callee =>
      refine ⟨callee, hcallee, ?_⟩
      dsimp only at hrest
      split_ifs at hrest
      · cases yields_failAt hrest
      · obtain ⟨_, m, hcheck, hwrite⟩ := yields_bind.mp hrest
        rw [Site.checkArguments] at hcheck
        split_ifs at hcheck
        · obtain ⟨_, rfl⟩ := yields_pure.mp hcheck
          cases index with
          | none => exact hwrite
          | some push => exact hwrite
        · cases yields_failAt hcheck

/-! ### The slots that calls name -/

/-- What calls into sub-objects write in object `id` of a build that is on the way to `build`, and
what they name in the image: the operand is the number of the sub-object's first slot exactly if
that is at most 255, and then the slots from the operand on lead to the object that is called, in a
memory of words. -/
def Image.AnswersCalls (image : Image) (config : Config) (build origin : Build) (id : ObjId) :
    Prop :=
  ∀ (scope : Scope) (pos : Pos) (object name : String) (index : Option (Emit Unit))
    (arguments : Nat) (draft draft' : Draft),
    Yields (Site.callSub { origin.site id with scope } pos object name index arguments)
      draft () draft' →
    ∃ sub ∈ (build.object id).subs, ∃ callee : Method,
      lookup? origin.objects id scope object = some (.sub sub)
      ∧ lookup? origin.objects sub.target [] name = some (.method callee)
      ∧ Yields (do
          index.forM (m := Emit) fun push => push
          Emit.code [callOpcode index.isSome, lowByte sub.index, lowByte callee.index])
        draft () draft'
      ∧ ((lowByte sub.index).toNat = sub.index ↔ sub.index ≤ 255)
      ∧ (config.memorySize < 65536 → sub.index ≤ 255 → (build.object id).replacement = none →
        ∀ k < sub.count,
          ((build.object id).address + image.halfwordAt
              ((build.object id).address + 4 * ((lowByte sub.index).toNat + k))) % 65536
            = (build.object (build.survivor sub.target)).address)

theorem Linked.answersCalls {laid build origin : Build} {image : Image} {config : Config}
    (hlaid : laid.Laid) (h : Linked laid image build)
    (hbase : (image.varBase : Int) < config.memoryWord) {id : ObjId}
    (hid : id < build.objects.length)
    (hsubs : (origin.object id).subs = (build.object id).subs) :
  image.AnswersCalls config build origin id
  := by
  intro scope pos object name index arguments draft draft' hcall
  obtain ⟨sub, hsub, hlookup, callee, hcallee, hwrites⟩ := Site.yields_callSub hcall
  have hdeclared : sub ∈ (build.object id).subs := by
    rwa [← hsubs]
  refine ⟨sub, hdeclared, callee, hlookup, hcallee, hwrites, toNat_lowByte_eq_iff _, ?_⟩
  intro hsize hbyte hsurvives k hk
  rw [Config.memoryWord_eq hsize] at hbase
  rw [(toNat_lowByte_eq_iff _).mpr hbyte]
  apply (h.instance_words hlaid hid hsurvives (by omega) hdeclared hk).1

/-- Where slots are given out to the sub-objects of an object, and the number of instances stays in
32 bits, all slots have numbers of one byte exactly if the methods and instances together are at
most 255, and this is still so in every build that is compiled. Every method of the object was
compiled where calls into sub-objects name slots that lead to them, if the numbers of the slots have
one byte. -/
theorem Program.calls_name_slots (config : Config) :
  (∀ (build build' : Build) (id : ObjId), id < build.objects.length →
      Yields (Step.placeSubs id) build () build' →
      total ((build'.object id).subs.map (·.count)) < 2 ^ 31 →
      ((∀ sub ∈ (build'.object id).subs, sub.index + sub.count - 1 ≤ 255)
        ↔ (build'.object id).methods.length + (build'.object id).subSlots ≤ 255))
    ∧ ∀ (program : Program) (image : Image) (build : Build),
      program.compile config = .ok (image, build) → build.Exact →
      ∀ id < build.objects.length,
        ((∀ sub ∈ (build.object id).subs, sub.index + sub.count - 1 ≤ 255)
          ↔ (build.object id).methods.length + (build.object id).subSlots ≤ 255)
        ∧ ∀ method ∈ (build.object id).methods, ∃ origin : Build,
          (origin.object id).outline.unlinked = (build.object id).outline.unlinked
          ∧ method.CompiledIn config origin id ∧ image.AnswersCalls config build origin id
  := by
  constructor
  · intro build build' id hid h _
    exact (Step.placeSubs_subSlotted h hid).slots_le_iff (Step.placeSubs_counted h hid)
  · intro program image build h hexact id hid
    obtain ⟨registered, laid, hregister, hbuild, hlink, hlaid⟩ := compile_spec h
    obtain ⟨hlinked, hbase⟩ := Step.link_within hlaid hlink hexact
    have hregistered := Program.register_spec hregister
    have hsame := hlinked.sharing.agree.objects id
    have hidlaid : id < laid.objects.length := by
      rwa [← hlinked.sharing.agree.length]
    constructor
    · have hsubs : (build.object id).subs = (laid.object id).subs :=
        (congrArg Object.subs hsame :)
      apply (hlinked.compiled hlaid hid).subSlotted.slots_le_iff
      rw [Object.Counted, hsubs]
      apply Step.build_counted hregistered hbuild id hidlaid
    · intro method hmethod
      have hmethods : (build.object id).methods = (laid.object id).methods :=
        (congrArg Object.methods hsame :)
      rw [hmethods] at hmethod
      obtain ⟨origin, horigin, hcompiled⟩ :=
        ((Step.build_spec hregistered hbuild).2 id hidlaid).2 method hmethod
      have houtline : (origin.object id).outline.unlinked
          = (build.object id).outline.unlinked := by
        rw [horigin]
        exact (congrArg Object.outline hsame).symm
      refine ⟨origin, houtline, hcompiled, ?_⟩
      apply hlinked.answersCalls hlaid hbase hid
      exact (congrArg Object.subs houtline :)

/-- The root of the twins calls the single one behind a pair of others, by slot 5. -/
theorem Program.calls_name_slots_twin :
  ∃ image build, twinProgram.compile { memorySize := 256 } = .ok (image, build) ∧ build.Exact
    ∧ 0 < build.objects.length
    ∧ (∀ sub ∈ (build.object 0).subs, sub.index + sub.count - 1 ≤ 255)
    ∧ ∃ method ∈ (build.object 0).methods, method.code = [0x01, 0x06, 0x05, 0x01, 0x32]
      ∧ ∃ origin : Build, method.CompiledIn { memorySize := 256 } origin 0
        ∧ image.AnswersCalls { memorySize := 256 } build origin 0
  := by
  obtain ⟨⟨image, build⟩, h, hexact, hid, hfew, method, hmethod, hcode⟩ :
      ∃ result, twinProgram.compile { memorySize := 256 } = .ok result ∧ result.2.Exact
        ∧ 0 < result.2.objects.length
        ∧ (result.2.object 0).methods.length + (result.2.object 0).subSlots ≤ 255
        ∧ ∃ method ∈ (result.2.object 0).methods,
          method.code = [0x01, 0x06, 0x05, 0x01, 0x32] := by
    decide +kernel
  obtain ⟨hslots, hcalls⟩ := (Program.calls_name_slots _).2 _ image build h hexact 0 hid
  obtain ⟨origin, _, hcompiled, hanswers⟩ := hcalls method hmethod
  exact ⟨image, build, h, hexact, hid, hslots.mpr hfew, method, hmethod, hcode, origin, hcompiled,
    hanswers⟩

/-- A program whose root includes 254 instances of one object in front of the one that it calls. -/
def crowdedProgram : Program :=
  let run : MethodDecl := { name := { name := "run" }, isPublic := true }
  { root := "top"
    objects := [
      { file := "top"
        objs := [
          { name := { name := "many" }, file := { name := "left" }, count := some (.int {} 254) },
          { name := { name := "last" }, file := { name := "right" } }]
        methods := [
          { name := { name := "start" }, isPublic := true
            body := [.exp {} (.call {} (some "last") none "run" [] false)] }] },
      { file := "left", methods := [run] },
      { file := "right", methods := [run]
        vars := [{ name := { name := "count" }, size := .long }] }] }

/-- Slots may have numbers of more than one byte: a program that calls through slot 256 compiles,
and the call names slot 0. -/
theorem Program.calls_beyond_byte :
  ∃ image build, crowdedProgram.compile { memorySize := 2048 } = .ok (image, build)
    ∧ (∃ sub ∈ (build.object 0).subs, sub.name.name = "last" ∧ sub.index = 256)
    ∧ ∃ method ∈ (build.object 0).methods, method.code = [0x01, 0x06, 0x00, 0x01, 0x32]
  := by
  obtain ⟨⟨image, build⟩, h⟩ :
      ∃ result, crowdedProgram.compile { memorySize := 2048 } = .ok result
        ∧ (∃ sub ∈ (result.2.object 0).subs, sub.name.name = "last" ∧ sub.index = 256)
        ∧ ∃ method ∈ (result.2.object 0).methods,
          method.code = [0x01, 0x06, 0x00, 0x01, 0x32] := by
    decide +kernel
  exact ⟨image, build, h⟩

end SpinHub
