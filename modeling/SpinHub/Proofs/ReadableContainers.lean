import Mathlib
import SpinHub.Proofs.ContainerBodies

/-!
# Readable containers

`Container.read` reads a container as its layout is documented: the header with the numbers and
the lengths of the sections, then the sections, each of which has to be used up by the entries
that the header counts. It returns what was written, and leaves what stands behind the container.
-/

namespace SpinHub

variable {α β : Type}

/-- Takes something from the front of bytes, or fails. -/
abbrev Read := StateT Bytes Option

namespace Read

/-! ### Readers -/

def byte : Read UInt8
  | [] => none
  | b :: rest => some (b, rest)

/-- A number in two bytes, low byte first. -/
def halfword : Read Nat := do
  let low ← byte
  let high ← byte
  return low.toNat + 256 * high.toNat

/-- A word in four bytes, low byte first. -/
def long : Read Word := do
  let low ← halfword
  let high ← halfword
  return BitVec.ofNat 32 (low + 65536 * high)

/-- A number of bytes as they are. -/
def take (count : Nat) : Read Bytes := fun bytes =>
  if count ≤ bytes.length then some (bytes.take count, bytes.drop count) else none

/-- Bytes that have to stand here. -/
def expect (bytes : Bytes) : Read Unit := do
  if (← take bytes.length) = bytes then return () else failure

/-- A name in UTF-8 that a zero ends. -/
def name : Read String := fun bytes =>
  match bytes.dropWhile (· ≠ 0) with
  | [] => none
  | _ :: rest =>
    (bytes.takeWhile (· ≠ 0)).toByteArray.utf8Decode?.map fun chars =>
      (String.ofList chars.toList, rest)

/-- Something as often as it is counted. -/
def times (action : Read α) : Nat → Read (List α)
  | 0 => return []
  | count + 1 => do
    let a ← action
    let rest ← times action count
    return a :: rest

/-- Something that takes up the next bytes to the last. -/
def within (count : Nat) (action : Read α) : Read α := do
  let bytes ← take count
  match action.run bytes with
  | some (a, []) => return a
  | _ => failure

end Read

/-- An export: its name, its kind, and what belongs to the kind. -/
def Export.read : Read Export := do
  let name ← Read.name
  let kind ← Read.byte
  if kind = 0 then
    let value ← Read.long
    return .int name value
  else if kind = 1 then
    let bits ← Read.long
    return .float name ⟨bits⟩
  else if kind = 2 then
    let index ← Read.byte
    let params ← Read.byte
    return .method name index.toNat params.toNat
  else failure

/-- An import: its name, its number of instances and a zero. -/
def Import.read : Read Import := do
  let name ← Read.name
  let count ← Read.halfword
  Read.expect [0]
  return { name, count }

/-- A container whose hash and sum are those of its body. -/
def Container.read : Read Container := do
  Read.expect [0x53, 0x4f, 0x42, 0x31]
  let _time ← Read.long
  let hash ← Read.long
  let exportCount ← Read.halfword
  let exportBytes ← Read.halfword
  let importCount ← Read.halfword
  let importBytes ← Read.halfword
  let bodyBytes ← Read.halfword
  let checksum ← Read.byte
  let _reserved ← Read.byte
  let varSize ← Read.halfword
  let exports ← Read.within exportBytes (Read.times Export.read exportCount)
  let imports ← Read.within importBytes (Read.times Import.read importCount)
  let body ← Read.take bodyBytes
  if hash = rollingHash body ∧ checksum = body.sum then
    return { exports, imports, varSize, body }
  else failure

/-! ### Reading back -/

/-- The reader takes `bytes` for `a`, whatever stands behind them. -/
def Read.Takes (action : Read α) (bytes : Bytes) (a : α) : Prop :=
  ∀ rest, action.run (bytes ++ rest) = some (a, rest)

namespace Read.Takes

theorem pure (a : α) :
  Takes (pure a) [] a
  := fun _ => rfl

/-- What two readings take in turn stands in turn. -/
theorem bind {x : Read α} {f : α → Read β} {front back : Bytes} {a : α} {b : β}
    (hx : Takes x front a) (hf : Takes (f a) back b) :
  Takes (x >>= f) (front ++ back) b
  := by
  intro rest
  rw [StateT.run_bind, List.append_assoc, hx, Option.bind_eq_bind, Option.bind_some, hf]

/-- The last thing that is read leaves the rest to a reader that takes nothing. -/
theorem bind_nil {x : Read α} {f : α → Read β} {bytes : Bytes} {a : α} {b : β}
    (hx : Takes x bytes a) (hf : Takes (f a) [] b) :
  Takes (x >>= f) bytes b
  := by
  rw [← List.append_nil bytes]
  apply hx.bind hf

theorem map {x : Read α} {bytes : Bytes} {a : α} (hx : Takes x bytes a) (f : α → β) :
  Takes (do return f (← x)) bytes (f a)
  := by
  apply hx.bind_nil
  apply pure

/-- A byte is taken as it is. -/
theorem byte (b : UInt8) :
  Takes Read.byte [b] b
  := fun _ => rfl

/-- A number below 65536 is taken from two bytes. -/
theorem halfword {n : Nat} (h : n < 65536) :
  Takes Read.halfword (SpinHub.halfword n) n
  := by
  have hlow := toNat_lowByte n
  have hhigh := toNat_highByte n
  have hvalue : (lowByte n).toNat + 256 * (highByte n).toNat = n := by
    omega
  intro rest
  change some ((lowByte n).toNat + 256 * (highByte n).toNat, rest) = some (n, rest)
  rw [hvalue]

theorem long (w : Word) :
  Takes Read.long w.littleEndian w
  := by
  intro rest
  change some (BitVec.ofNat 32 (((w.byte 0).toNat + 256 * (w.byte 1).toNat)
    + 65536 * ((w.byte 2).toNat + 256 * (w.byte 3).toNat)), rest) = some (w, rest)
  have hlt := w.isLt
  have hvalue : (w.byte 0).toNat + 256 * (w.byte 1).toNat
      + 65536 * ((w.byte 2).toNat + 256 * (w.byte 3).toNat) = w.toNat := by
    simp only [Word.toNat_byte]
    omega
  rw [hvalue, BitVec.ofNat_toNat, BitVec.setWidth_eq]

theorem take (bytes : Bytes) :
  Takes (Read.take bytes.length) bytes bytes
  := by
  intro rest
  change (if bytes.length ≤ (bytes ++ rest).length then _ else _) = _
  rw [if_pos (by simp), List.take_left, List.drop_left]

/-- Bytes that are expected are taken. -/
theorem expect (bytes : Bytes) :
  Takes (Read.expect bytes) bytes ()
  := by
  apply (take bytes).bind_nil
  rw [if_pos rfl]
  apply pure

/-- As many items are taken as there are, one behind the other. -/
theorem times {action : Read α} {f : α → Bytes} {items : List α}
    (h : ∀ a ∈ items, Takes action (f a) a) :
  Takes (Read.times action items.length) (items.flatMap f) items
  := by
  induction items with
  | nil => apply pure
  | cons a items ih =>
    rw [List.length_cons, Read.times, List.flatMap_cons]
    apply (h a List.mem_cons_self).bind
    apply (ih _).map
    intro b hb
    apply h b (List.mem_cons_of_mem a hb)

/-- A reading may be confined to the bytes that it takes. -/
theorem within {action : Read α} {bytes : Bytes} {a : α} (h : Takes action bytes a) :
  Takes (Read.within bytes.length action) bytes a
  := by
  have hall := h []
  rw [List.append_nil] at hall
  apply (take bytes).bind_nil
  rw [hall]
  apply pure

end Read.Takes

/-! ### Names -/

/-- A name without the character that would end it. -/
def NulFree (name : String) : Prop := ∀ c ∈ name.toList, c.toNat ≠ 0

/-- A name is free of zeros if none of its characters is one. -/
theorem nulFree_iff (name : String) :
  name.toList.all (·.toNat != 0) = true ↔ NulFree name
  := by
  simp [NulFree]

instance (name : String) : Decidable (NulFree name) := decidable_of_iff _ (nulFree_iff name)

/-- UTF-8 has a zero for the zero character only. -/
theorem ne_zero_of_mem_utf8EncodeChar {c : Char} (hc : c.toNat ≠ 0) {b : UInt8}
    (hb : b ∈ String.utf8EncodeChar c) :
  b ≠ 0
  := by
  have hne (n : Nat) (hpos : 0 < n) (hlt : n < 256) : UInt8.ofNat n ≠ 0 := by
    intro heq
    have := congrArg UInt8.toNat heq
    rw [UInt8.toNat_ofNat_of_lt' hlt, UInt8.toNat_zero] at this
    omega
  unfold String.utf8EncodeChar at hb
  dsimp only at hb
  change c.val.toNat ≠ 0 at hc
  split_ifs at hb
  all_goals
    simp only [List.mem_cons, List.not_mem_nil, or_false] at hb
  · subst hb
    apply hne <;> omega
  · rcases hb with rfl | rfl <;> apply hne <;> omega
  · rcases hb with rfl | rfl | rfl <;> apply hne <;> omega
  · rcases hb with rfl | rfl | rfl | rfl <;> apply hne <;> omega

/-- A name without zeros is read back up to the zero behind it. -/
theorem Read.Takes.name {name : String} (h : NulFree name) :
  Read.Takes Read.name (nameBytes name) name
  := by
  have hfree : ∀ b ∈ name.toList.flatMap String.utf8EncodeChar, (decide (b ≠ 0)) = true := by
    intro b hb
    obtain ⟨c, hc, hb⟩ := List.mem_flatMap.mp hb
    apply decide_eq_true
    apply ne_zero_of_mem_utf8EncodeChar (h c hc) hb
  intro rest
  rw [nameBytes, List.append_assoc]
  have htake : (name.toList.flatMap String.utf8EncodeChar ++ ([0] ++ rest)).takeWhile (· ≠ 0)
      = name.toList.flatMap String.utf8EncodeChar := by
    rw [List.takeWhile_append_of_pos hfree]
    simp
  have hdrop : (name.toList.flatMap String.utf8EncodeChar ++ ([0] ++ rest)).dropWhile (· ≠ 0)
      = 0 :: rest := by
    rw [List.dropWhile_append_of_pos hfree]
    rfl
  have hdecode : (name.toList.flatMap String.utf8EncodeChar).toByteArray.utf8Decode?
      = some name.toList.toArray := List.utf8Decode?_utf8Encode
  rw [StateT.run, Read.name, hdrop, htake, hdecode]
  dsimp only
  rw [Option.map_some, List.toList_toArray, String.ofList_toList]

/-! ### Entries and containers -/

/-- An export that can be read back: its name has an end, and a method has its slot and its
parameters counted in bytes. -/
def Export.Fits : Export → Prop
  | .int name _ | .float name _ => NulFree name
  | .method name index params => NulFree name ∧ index < 256 ∧ params < 256

theorem toNat_lowByte_of_lt {n : Nat} (h : n < 256) :
  (lowByte n).toNat = n
  := by
  have := toNat_lowByte n
  omega

/-- An export that fits is read back. -/
theorem Export.takes_bytes {entry : Export} (h : entry.Fits) :
  Read.Takes Export.read entry.bytes entry
  := by
  cases entry with
  | int name value =>
    rw [Export.bytes, List.append_assoc]
    apply (Read.Takes.name h).bind
    apply (Read.Takes.byte 0).bind
    apply (Read.Takes.long value).map
  | float name value =>
    rw [Export.bytes, List.append_assoc]
    apply (Read.Takes.name h).bind
    apply (Read.Takes.byte 1).bind
    apply (Read.Takes.long value.bits).map
  | method name index params =>
    obtain ⟨hname, hindex, hparams⟩ := h
    apply (Read.Takes.name hname).bind
    apply (Read.Takes.byte 2).bind
    apply (Read.Takes.byte (lowByte index)).bind
    apply (Read.Takes.byte (lowByte params)).bind_nil
    rw [toNat_lowByte_of_lt hindex, toNat_lowByte_of_lt hparams]
    apply Read.Takes.pure

def Import.Fits (entry : Import) : Prop := NulFree entry.name ∧ entry.count < 65536

/-- An import that fits is read back. -/
theorem Import.takes_bytes {entry : Import} (h : entry.Fits) :
  Read.Takes Import.read entry.bytes entry
  := by
  rw [Import.bytes, List.append_assoc]
  apply (Read.Takes.name h.1).bind
  apply (Read.Takes.halfword h.2).bind
  apply (Read.Takes.expect [0]).bind_nil
  apply Read.Takes.pure

/-- A container whose numbers and lengths are kept in the two bytes they are given. -/
@[mk_iff]
structure Container.Small (container : Container) : Prop where
  exports : container.exports.length < 65536
  exportBytes : (container.exports.flatMap Export.bytes).length < 65536
  imports : container.imports.length < 65536
  importBytes : (container.imports.flatMap Import.bytes).length < 65536
  body : container.body.length < 65536
  varSize : container.varSize < 65536

instance (container : Container) : Decidable container.Small :=
  decidable_of_iff' _ container.small_iff

/-- A container is read as it was written. -/
theorem Container.takes_bytes {container : Container} (hsmall : container.Small)
    (hexports : ∀ entry ∈ container.exports, entry.Fits)
    (himports : ∀ entry ∈ container.imports, entry.Fits) :
  Read.Takes Container.read container.bytes container
  := by
  have hbytes : container.bytes = [0x53, 0x4f, 0x42, 0x31] ++ ((0 : Word).littleEndian
      ++ ((rollingHash container.body).littleEndian
      ++ (halfword container.exports.length
      ++ (halfword (container.exports.flatMap Export.bytes).length
      ++ (halfword container.imports.length
      ++ (halfword (container.imports.flatMap Import.bytes).length
      ++ (halfword container.body.length
      ++ ([container.body.sum] ++ ([0] ++ (halfword container.varSize
      ++ (container.exports.flatMap Export.bytes
      ++ (container.imports.flatMap Import.bytes ++ container.body)))))))))))) := by
    simp only [Container.bytes, List.append_assoc]
    rfl
  rw [hbytes, Container.read]
  apply (Read.Takes.expect [0x53, 0x4f, 0x42, 0x31]).bind
  apply (Read.Takes.long 0).bind
  apply (Read.Takes.long _).bind
  apply (Read.Takes.halfword hsmall.exports).bind
  apply (Read.Takes.halfword hsmall.exportBytes).bind
  apply (Read.Takes.halfword hsmall.imports).bind
  apply (Read.Takes.halfword hsmall.importBytes).bind
  apply (Read.Takes.halfword hsmall.body).bind
  apply (Read.Takes.byte container.body.sum).bind
  apply (Read.Takes.byte 0).bind
  apply (Read.Takes.halfword hsmall.varSize).bind
  apply (Read.Takes.times fun entry h => Export.takes_bytes (hexports entry h)).within.bind
  apply (Read.Takes.times fun entry h => Import.takes_bytes (himports entry h)).within.bind
  apply (Read.Takes.take container.body).bind_nil
  rw [if_pos ⟨rfl, rfl⟩]
  apply Read.Takes.pure

/-! ### Compiled objects -/

/-- Upper case makes no zero of a character. -/
theorem toUpper_toNat_ne_zero {c : Char} (hc : c.toNat ≠ 0) :
  c.toUpper.toNat ≠ 0
  := by
  by_cases hlower : c.isLower
  · have hupper : c.toUpper.isUpper := by
      rw [Char.isUpper_toUpper_eq_isAlpha, Char.isAlpha, hlower, Bool.or_true]
    have hfirst : 65 ≤ c.toUpper.toNat := by
      rw [Char.isUpper, decide_eq_true_iff] at hupper
      exact UInt32.le_iff_toNat_le.mp hupper.1
    omega
  · rwa [Char.toUpper_eq_of_not_isLower hlower]

/-- The key of a name without zeros has none. -/
theorem NulFree.nameKey {name : String} (h : NulFree name) :
  NulFree (nameKey name)
  := by
  intro c hc
  rw [SpinHub.nameKey, String.toList_ofList] at hc
  obtain ⟨d, hd, rfl⟩ := List.mem_map.mp hc
  apply toUpper_toNat_ne_zero (h d hd)

/-- The name under which a file is imported has no zeros if the file name has none. -/
theorem NulFree.importName {name : String} (h : NulFree name) :
  NulFree (FileName.importName name)
  := by
  unfold FileName.importName
  split
  case h_1 stem hstem =>
    apply NulFree.nameKey
    rw [FileName.stem?] at hstem
    split_ifs at hstem
    cases hstem
    intro c hc
    rw [String.toList_ofList] at hc
    apply h c (List.mem_of_mem_take hc)
  case h_2 => apply h.nameKey

/-- An object of whose names those that a container lists have an end. -/
@[mk_iff]
structure Object.NulFreeNames (object : Object) : Prop where
  constants : ∀ con ∈ object.cons, con.builtin = false → NulFree con.name.name
  methods : ∀ method ∈ object.methods, method.isPublic = true → NulFree method.name.name
  subs : ∀ sub ∈ object.subs, NulFree sub.file.name

instance (object : Object) : Decidable object.NulFreeNames :=
  decidable_of_iff' _ object.nulFreeNames_iff

namespace Object.Slotted

variable {object : Object} (h : object.Slotted)

include h

/-- Methods have the slots behind the first, and there are fewer than bytes can count. -/
theorem index_lt {method : Method} (hmethod : method ∈ object.methods) :
  method.index < 256
  := by
  have hindex : method.index ∈ object.methodTable.map (·.index) := by
    apply List.mem_map_of_mem
    rwa [object.methodTable_perm.mem_iff]
  rw [h.methods, List.mem_range'_1] at hindex
  have := h.fewMethods
  omega

/-- A sub-object has fewer than 65536 instances, as each has a slot of the table. -/
theorem count_lt {sub : SubObject} (hsub : sub ∈ object.subs) :
  sub.count < 65536
  := by
  have hle : sub.count ≤ total (object.subs.map (·.count)) := by
    rw [total_eq_sum]
    apply List.le_sum_of_mem
    apply List.mem_map_of_mem hsub
  have := h.fewSubs
  rw [h.subSlots] at this
  omega

end Object.Slotted

/-- A container lists what an object of a build offers and includes, in the order of declaration:
the constants that it declares with their values, its public methods, and its sub-objects. -/
structure Container.Lists (container : Container) (build : Build) (id : ObjId) : Prop where
  exports : ∃ constants, List.Forall₂ (fun (declared : Con × Nat) entry => ∃ value,
      Yields ((build.site id).conValue id declared.2 declared.1) build.memo value build.memo
        ∧ entry = .ofValue (nameKey declared.1.name.name) value)
      ((build.object id).cons.zipIdx.filter fun declared => !declared.1.builtin) constants
    ∧ container.exports = constants ++ ((build.object id).methods.filter (·.isPublic)).map
      fun method => .method (nameKey method.name.name) method.index method.params.length
  imports : container.imports = (build.object id).subs.map fun sub =>
    { name := FileName.importName sub.file.name, count := sub.count }
  varSize : container.varSize = (build.object id).varSize
  body : container.body = (build.object id).body

/-- A container lists what its object offers and needs. -/
theorem Container.lists_of_yields {build after : Build} {id : ObjId} {container : Container}
    (h : Yields (Step.evaluateIn id Site.container) build container after) :
  container.Lists after id
  := by
  obtain ⟨memo, hmade, rfl⟩ := Step.yields_evaluateIn.mp h
  obtain ⟨constants, middle, hconstants, hpure⟩ := yields_bind.mp hmade
  obtain ⟨rfl, rfl⟩ := yields_pure.mp hpure
  refine ⟨⟨constants, ?_, rfl⟩, rfl, rfl, rfl⟩
  have hrepeats (declared : Con × Nat) : Repeats
      (do
        let v ← (build.site id).conValue id declared.2 declared.1
        return Export.ofValue (nameKey declared.1.name.name) v)
      (do
        let v ← (build.site id).conValue id declared.2 declared.1
        return Export.ofValue (nameKey declared.1.name.name) v) := by
    have hagain := conValueWithin_readsAgain (ObjectsGrow.refl build.objects)
    apply Repeats.bind ((hagain _ _).repeats _ _ _)
    intro v
    apply Repeats.pure
  apply (forall₂_of_mapM hrepeats hconstants).imp
  intro declared entry hentry
  obtain ⟨value, _, hvalue, hpure⟩ := yields_bind.mp hentry
  obtain ⟨rfl, rfl⟩ := yields_pure.mp hpure
  exact ⟨value, hvalue, rfl⟩

/-- A constant with a name without zeros fits into an export. -/
theorem Export.fits_ofValue {name : String} (h : NulFree name) (value : Value) :
  (Export.ofValue name value).Fits
  := by
  cases value with
  | int w => exact h
  | float x => exact h

/-- The exported constants fit, as the names of all constants do. -/
theorem Object.NulFreeNames.fits_constants {object : Object} (h : object.NulFreeNames)
    {R : Con × Nat → Value → Prop} {declared : List (Con × Nat)} {constants : List Export}
    (hdeclared : declared ⊆ object.cons.zipIdx.filter fun declared => !declared.1.builtin)
    (hconstants : List.Forall₂ (fun (declared : Con × Nat) entry => ∃ value, R declared value
      ∧ entry = .ofValue (nameKey declared.1.name.name) value) declared constants) :
  ∀ entry ∈ constants, entry.Fits
  := by
  induction hconstants with
  | nil => nofun
  | cons hentry _ ih =>
    obtain ⟨value, _, rfl⟩ := hentry
    obtain ⟨hfirst, hrest⟩ := List.cons_subset.mp hdeclared
    intro entry hmem
    rcases List.mem_cons.mp hmem with rfl | hmem
    · obtain ⟨hcon, huser⟩ := List.mem_filter.mp hfirst
      apply Export.fits_ofValue
      apply NulFree.nameKey
      apply h.constants
      · apply List.fst_mem_of_mem_zipIdx hcon
      · simpa using huser
    · apply ih hrest entry hmem

deriving instance DecidableEq for Export, Import

/-- The container of a compiled object, whether or not duplicates are shared and an image is
written, lists what the object declares, and what was listed is read back from its bytes to the
last of them: names that a zero does not cut short, and numbers that are given bytes enough. -/
theorem Program.containers_read_back {program : Program} {config : Config}
    {registered laid build after : Build} (hregister : program.register = .ok registered)
    (hbuild : Yields (Step.build config) registered () laid)
    (hstage : build = laid ∨ build = (Build.shareDuplicates.run laid).2
      ∨ ∃ image, Yields (Step.link config) laid image build)
    {id : ObjId} (hid : id < build.objects.length) {memo : Memo} {container : Container}
    (hcontainer : Yields (Step.evaluateIn id Site.container) { build with memo } container after)
    (hnames : (build.object id).NulFreeNames)
    (hparams : ∀ method ∈ (build.object id).methods, method.isPublic = true →
      method.params.length < 256)
    (hsmall : container.Small) :
  (∀ rest, Container.read.run (container.bytes ++ rest) = some (container, rest))
    ∧ container.Lists after id
  := by
  have hlaid := Step.build_laid (register_spec hregister) hbuild
  have hshared : laid.Sharing build [] := by
    rcases hstage with rfl | rfl | ⟨image, hlink⟩
    · apply Build.Sharing.of_laid hlaid
    · apply Build.shareDuplicates_sharing hlaid
    · exact (Step.link_spec hlaid hlink).1
  have hcompiled : (build.object id).Compiled := by
    rw [hshared.agree.length] at hid
    apply (hlaid.compiled id hid).of_unlinked (hshared.agree.objects id)
  have hlists := Container.lists_of_yields hcontainer
  have hobject : after.object id = build.object id := by
    obtain ⟨_, _, rfl⟩ := Step.yields_evaluateIn.mp hcontainer
    rfl
  refine ⟨Container.takes_bytes hsmall ?_ ?_, hlists⟩
  · obtain ⟨constants, hconstants, hexports⟩ := hlists.exports
    rw [hobject] at hconstants hexports
    intro entry hentry
    rw [hexports] at hentry
    rcases List.mem_append.mp hentry with hconstant | hlisted
    · apply hnames.fits_constants (List.Subset.refl _) hconstants entry hconstant
    · obtain ⟨method, hpublic, rfl⟩ := List.mem_map.mp hlisted
      obtain ⟨hmethod, hpublic⟩ := List.mem_filter.mp hpublic
      refine ⟨?_, hcompiled.index_lt hmethod, hparams method hmethod hpublic⟩
      apply NulFree.nameKey (hnames.methods method hmethod hpublic)
  · intro entry hentry
    rw [hlists.imports, hobject] at hentry
    obtain ⟨sub, hsub, rfl⟩ := List.mem_map.mp hentry
    dsimp only [Import.Fits]
    exact ⟨(hnames.subs sub hsub).importName, hcompiled.count_lt hsub⟩

/-- A program whose root declares constants of both types, methods of both kinds and an array of
sub-objects. -/
def offeringProgram : Program :=
  { root := "offer"
    objects := [
      { file := "offer"
        constants := [{ name := { name := "limit" }, value := .int {} 500 },
          { name := { name := "Größe" }, value := .float {} ⟨0x3fc00000⟩ }]
        objs := [{ name := { name := "parts" }, file := { name := "Part.spin" }
                   count := some (.int {} 3) }]
        methods := [
          { name := { name := "start" }, isPublic := true
            params := [{ name := "a" }, { name := "b" }] },
          { name := { name := "hide" }, isPublic := false },
          { name := { name := "stop" }, isPublic := true }] },
      { file := "part", methods := [{ name := { name := "run" }, isPublic := true }] }] }

set_option synthInstance.maxSize 512 in
theorem Program.containers_read_back_offering :
  ∃ registered laid image build container after, offeringProgram.register = .ok registered
    ∧ Yields (Step.build { memorySize := 256 }) registered () laid
    ∧ Yields (Step.link { memorySize := 256 }) laid image build
    ∧ Yields (Step.evaluateIn Build.root Site.container) build container after
    ∧ container.exports = [.int "LIMIT" 500, .float "GRößE" ⟨0x3fc00000⟩, .method "START" 1 2,
      .method "STOP" 2 0]
    ∧ container.imports = [{ name := "PART", count := 3 }]
    ∧ Container.read.run container.bytes = some (container, [])
  := by
  obtain ⟨registered, hregister, ⟨⟩, laid, hbuild, image, build, hlink, container, after,
      hcontainer, hroot, hnames, hparams, hsmall, hexports, himports⟩ :
      ∃ registered, offeringProgram.register = .ok registered
        ∧ ∃ u laid, Yields (Step.build { memorySize := 256 }) registered u laid
        ∧ ∃ image build, Yields (Step.link { memorySize := 256 }) laid image build
        ∧ ∃ container after,
          Yields (Step.evaluateIn Build.root Site.container) build container after
        ∧ Build.root < build.objects.length ∧ (build.object Build.root).NulFreeNames
        ∧ (∀ method ∈ (build.object Build.root).methods, method.isPublic = true →
          method.params.length < 256)
        ∧ container.Small
        ∧ container.exports = [.int "LIMIT" 500, .float "GRößE" ⟨0x3fc00000⟩, .method "START" 1 2,
          .method "STOP" 2 0]
        ∧ container.imports = [{ name := "PART", count := 3 }] := by
    decide +kernel
  have hread := (Program.containers_read_back hregister hbuild (.inr (.inr ⟨image, hlink⟩)) hroot
    hcontainer hnames hparams hsmall).1 []
  rw [List.append_nil] at hread
  exact ⟨registered, laid, image, build, container, after, hregister, hbuild, hlink, hcontainer,
    hexports, himports, hread⟩

end SpinHub
