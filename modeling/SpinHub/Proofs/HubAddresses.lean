import Mathlib
import SpinHub.Proofs.CallOperands
import SpinHub.Proofs.DatPayloads
import SpinHub.Proofs.MemoryMap

/-!
# Hub addresses

An object is compiled for the hub address that it would have if nothing was reserved and nothing
shared: the absolute addresses of its labels and its own base are reckoned from there. Its block is
placed later, behind the reserved space and without the objects in front of it that others have
taken the place of. The two addresses differ by just these bytes.
-/

namespace SpinHub

open Bytes

/-! ### Absolute addresses -/

/-- What absolute addresses in an object are reckoned from. -/
def Object.anchor (object : Object) : Nat × List Label := (object.hubAddress, object.labels)

namespace Build

/-- The hub address of an offset in an object, as it was when the object was compiled. -/
def hubWord (build : Build) (id : ObjId) (offset : Nat) : Word :=
  BitVec.ofNat 32 ((build.object id).hubAddress + offset)

/-- How absolute addresses are reckoned in object `id` of a build that is on the way to `build`: the
address of a label, as a value and as a push, is the hub address of the label's offset, and where a
reference to a sub-object is loaded or stored, the hub address of the object itself is pushed. -/
structure Reckons (origin build : Build) (id : ObjId) : Prop where
  value : ∀ {scope here readCon pos name memo v memo'},
    Yields (Site.evalWith readCon { origin.site id with scope, here } (.absolute pos name))
      memo v memo' →
    ∃ label ∈ (build.object id).labels, lookup? origin.objects id scope name = some (.label label)
      ∧ v = .int (build.hubWord id label.offset)
  push : ∀ {scope pos name draft draft'},
    Yields (Site.pushAbsolute { origin.site id with scope } pos name) draft () draft' →
    ∃ label ∈ (build.object id).labels, lookup? origin.objects id scope name = some (.label label)
      ∧ Yields (Emit.push (build.hubWord id label.offset)) draft () draft'
  load : ∀ {scope pos name sub draft draft'},
    lookup? origin.objects id scope name = some (.sub sub) →
    Yields (Site.accessName { origin.site id with scope } pos name .load) draft () draft' →
    Yields (do
        Site.accessCell pos .load 4 .object (sub.index * 4 : Nat) none
        Emit.push (build.hubWord id 0)
        Emit.code [0xec, 0x43, 0x37, 0x03, 0xe3, 0xec]) draft () draft'
  store : ∀ {scope pos name sub draft draft'},
    lookup? origin.objects id scope name = some (.sub sub) →
    Yields (Site.accessName { origin.site id with scope } pos name .store) draft () draft' →
    Yields (do
        Emit.push (build.hubWord id 0)
        Emit.code [0xed, 0x43, 0x37, 0x03, 0xe3, 0xed]
        Site.accessCell pos .store 4 .object (sub.index * 4 : Nat) none) draft () draft'

end Build

theorem Site.yields_labelNamed {site : Site} {name : String} {pos : Pos} {label : Label}
    {memo memo' : Memo} (h : Yields (site.labelNamed name pos) memo label memo') :
  site.lookup? name = some (.label label)
  := by
  obtain ⟨meaning, _, hlookup, hrest⟩ := yields_bind.mp h
  obtain ⟨hnamed, rfl⟩ := Site.yields_lookupIn.mp hlookup
  cases meaning with
  | slot | con | sub | var | method | file => cases yields_failAt hrest
  | label found =>
    obtain ⟨rfl, _⟩ := yields_pure.mp hrest
    exact hnamed

/-- Absolute addresses depend on the hub address and the labels of the object alone. -/
theorem Build.Reckons.of_anchor {origin build : Build} {id : ObjId}
    (h : (origin.object id).anchor = (build.object id).anchor) :
  origin.Reckons build id
  := by
  obtain ⟨haddress, hlabels⟩ := Prod.ext_iff.mp h
  change (origin.object id).hubAddress = (build.object id).hubAddress at haddress
  change (origin.object id).labels = (build.object id).labels at hlabels
  have hlabel {scope : Scope} {name : String} {label : Label}
      (hnamed : lookup? origin.objects id scope name = some (.label label)) :
      label ∈ (build.object id).labels := by
    rw [← hlabels]
    apply label_mem_of_lookup hnamed
  have hword (offset : Nat) :
      BitVec.ofNat 32 (offset + (origin.object id).hubAddress) = build.hubWord id offset := by
    rw [hubWord, haddress, Nat.add_comm]
  constructor
  · intro scope here readCon pos name memo v memo' hvalue
    obtain ⟨label, _, hfound, hpure⟩ := yields_bind.mp hvalue
    obtain ⟨rfl, _⟩ := yields_pure.mp hpure
    have hnamed := Site.yields_labelNamed hfound
    exact ⟨label, hlabel hnamed, hnamed, congrArg Value.int (hword label.offset)⟩
  · intro scope pos name draft draft' hpush
    obtain ⟨meaning, _, hlookup, hrest⟩ := yields_bind.mp hpush
    obtain ⟨hnamed, rfl⟩ := Site.yields_lookupIn.mp hlookup
    cases meaning with
    | slot | con | sub | var | method | file => cases yields_failAt hrest
    | label label =>
      refine ⟨label, hlabel hnamed, hnamed, ?_⟩
      rw [← hword]
      exact hrest
  all_goals
    intro scope pos name sub draft draft' hnamed haccess
    obtain ⟨meaning, _, hlookup, hrest⟩ := yields_bind.mp haccess
    obtain ⟨hmeaning, rfl⟩ := Site.yields_lookupIn.mp hlookup
    obtain rfl : meaning = .sub sub := Option.some_inj.mp (hmeaning.symm.trans hnamed)
    rw [← hword, Nat.zero_add]
    exact hrest

/-! ### Consecutive hub addresses -/

/-- What the DAT section of an object is reckoned and written from. -/
def Object.datSource (object : Object) : (Nat × List Label) × List DatEntry × Nat :=
  (object.anchor, object.dat, object.headerSize)

/-- Every entry of an object's DAT section was written when the object had the hub address and the
labels that it has now, and its payload stands in the section. -/
def Build.Stored (build : Build) (config : Config) (id : ObjId) : Prop :=
  ∀ k entry, (build.object id).dat[k]? = some entry →
    ∃ (origin : Build) (placed : Placed) (bytes : Bytes),
      origin.WritesEntry config id k entry placed bytes
      ∧ (origin.object id).anchor = (build.object id).anchor
      ∧ (build.object id).headerSize ≤ placed.start.offset
      ∧ Holds (build.object id).datBytes (placed.start.offset - (build.object id).headerSize) bytes

namespace Step

/-- The methods are compiled last, so the size that is found with them is the object's. -/
theorem compileMethods_size {config : Config} {id : ObjId} {size : Nat} {s s' : Build}
    (hid : id < s.objects.length) (h : Yields (compileMethods config id) s size s') :
  (s'.object id).size = size
  := by
  have hlength := (compileMethods_spec hid h).1.length
  obtain ⟨finish, m, hcompile, hrest⟩ := yields_bind.mp (yields_object_bind.mp h)
  obtain ⟨_, m', hmodify, hpure⟩ := yields_bind.mp hrest
  obtain rfl := yields_modifyObject.mp hmodify
  obtain ⟨rfl, rfl⟩ := yields_pure.mp hpure
  rw [Build.length_modifyObject] at hlength
  rw [Build.object_modifyObject_self _ (by rwa [hlength])]

/-- Compiling an object gives it its hub address, its size and its DAT section. -/
theorem compileObject_addressed {config : Config} {id : ObjId} {address size : Nat} {s s' : Build}
    (hid : id < s.objects.length) (h : Yields (compileObject config id address) s size s') :
  s.Keeps id (fun _ => ()) s' ∧ (s'.object id).hubAddress = address
    ∧ (s'.object id).size = size ∧ s'.Stored config id
  := by
  obtain ⟨_, m₁, haddress, h⟩ := yields_bind.mp h
  obtain ⟨_, m₂, hmeasure, h⟩ := yields_bind.mp h
  obtain ⟨_, m₃, hvars, h⟩ := yields_bind.mp h
  obtain ⟨_, m₄, hwrite, hmethods⟩ := yields_bind.mp h
  obtain rfl := yields_modifyObject.mp haddress
  -- once set, the hub address stays, and so do the labels from the end of the measuring pass on
  have hset : s.Keeps id (fun _ => ())
      (s.modifyObject id fun object => { object with hubAddress := address }) := .modifyObject rfl
  have hkeeps₂ : Build.Keeps id Object.hubAddress _ m₂ :=
    (measureDat_steady Build.Keeps.tolerant
      (.of_comp Object.hubAddress Build.Keeps.admits) config).yields hmeasure
  have hkeeps₃ : m₂.Keeps id Object.hubAddress m₃ :=
    (Steady.inObject Build.Keeps.tolerant (placeVars_steady Build.Keeps.tolerant
      fun b extents => Build.Keeps.modifyObject rfl)).yields hvars
  have hkeeps₄ : m₃.Keeps id Object.datSource m₄ :=
    (writeDat_steady Build.Keeps.tolerant
      (.of_comp Object.datSource Build.Keeps.admits) config).yields hwrite
  have hidm (m : Build) (hlength : m.objects.length = s.objects.length) :
      id < m.objects.length := by
    rwa [hlength]
  have hlength₃ : m₃.objects.length = s.objects.length :=
    hkeeps₃.length.trans (hkeeps₂.length.trans hset.length)
  have hlength₄ := hkeeps₄.length.trans hlength₃
  obtain ⟨hkeeps₅, _⟩ := compileMethods_spec (hidm m₄ hlength₄) hmethods
  have hsame : (s'.object id).datSource = (m₃.object id).datSource := by
    have hoffset : (s'.object id).datSource = (m₄.object id).datSource :=
      (congrArg Object.datSource hkeeps₅.self :)
    exact hoffset.trans hkeeps₄.self
  have hbytes : (s'.object id).datBytes = (m₄.object id).datBytes :=
    (congrArg Object.datBytes hkeeps₅.self :)
  simp only [Object.datSource, Object.anchor, Prod.mk.injEq] at hsame
  obtain ⟨⟨hsameAddress, hsameLabels⟩, hdat, hheader⟩ := hsame
  refine ⟨?_, ?_, ?_, ?_⟩
  · have hrest := (hkeeps₂.comp fun _ => ()).trans (hkeeps₃.comp fun _ => ())
    exact hset.trans (hrest.trans ((hkeeps₄.comp fun _ => ()).trans (hkeeps₅.comp fun _ => ())))
  · rw [hsameAddress, hkeeps₃.self, hkeeps₂.self, Build.object_modifyObject_self _ hid]
  · apply compileMethods_size (hidm m₄ hlength₄) hmethods
  · intro k entry hentry
    rw [hdat] at hentry
    obtain ⟨origin, placed, bytes, hwrites, ⟨latest, horigin⟩, hbase, hholds⟩ :=
      writeDat_holds (hidm m₃ hlength₃) hmeasure hvars hwrite hentry
    rw [hheader, hbytes]
    refine ⟨origin, placed, bytes, hwrites, ?_, hbase, hholds⟩
    rw [Object.anchor, Object.anchor, horigin, hsameAddress, hsameLabels]

/-- Objects are compiled for consecutive hub addresses. -/
theorem compileObjects_addressed {config : Config} {address : Nat} {ids : List ObjId} {s s' : Build}
    {u : Unit} (hnodup : ids.Nodup) (hids : ∀ id ∈ ids, id < s.objects.length)
    (h : Yields (compileObjects config address ids) s u s') :
  (∀ id, id ∉ ids → s'.object id = s.object id)
    ∧ (∀ i id, ids[i]? = some id → (s'.object id).hubAddress
      = address + total ((ids.take i).map fun id => (s'.object id).size))
    ∧ ∀ id ∈ ids, s'.Stored config id
  := by
  induction ids generalizing address s with
  | nil =>
    obtain ⟨_, rfl⟩ := yields_pure.mp h
    exact ⟨fun _ _ => rfl, nofun, nofun⟩
  | cons id rest ih =>
    obtain ⟨hfresh, hnodup'⟩ := List.nodup_cons.mp hnodup
    obtain ⟨size, m, hcompile, hrest⟩ := yields_bind.mp h
    obtain ⟨hkeeps, haddress, hsize, hstored⟩ :=
      compileObject_addressed (hids id List.mem_cons_self) hcompile
    have hids' : ∀ other ∈ rest, other < m.objects.length := by
      intro other hother
      rw [hkeeps.length]
      apply hids other (List.mem_cons_of_mem id hother)
    obtain ⟨hothers, haddresses, hdone⟩ := ih hnodup' hids' hrest
    -- what is compiled later leaves the object alone, so its size in the end is the one added here
    have hself := hothers id hfresh
    refine ⟨fun _ => hkeeps.others_cons hothers, ?_, ?_⟩
    · intro i other hother
      cases i with
      | zero =>
        cases hother
        rw [hself, haddress]
        rfl
      | succ i =>
        rw [haddresses i other hother, List.take_succ_cons, List.map_cons, hself, hsize,
          Nat.add_assoc]
        rfl
    · intro other hother
      rcases List.mem_cons.mp hother with rfl | hmem
      · rw [Build.Stored, hself]
        exact hstored
      · apply hdone other hmem

/-- The objects of a program are compiled for consecutive hub addresses behind the header. -/
theorem build_addressed {config : Config} {s s' : Build} {u : Unit} (hs : s.Registered)
    (h : Yields (build config) s u s') :
  (∀ i id, s'.order[i]? = some id → (s'.object id).hubAddress
      = headerSize + total ((s'.order.take i).map fun id => (s'.object id).size))
    ∧ ∀ id < s'.objects.length, s'.Stored config id
  := by
  have hlinks := (build_spec hs h).1
  obtain ⟨_, m, hslots, hcompile⟩ := yields_bind.mp (yields_get_bind.mp h)
  have hlength : m.objects.length = s.objects.length :=
    (placeSlots_spec (p := fun _ => True) (fun _ _ => trivial) hslots).1.length
  have hids : ∀ id ∈ s.order, id < m.objects.length := by
    intro id hid
    rw [hlength]
    apply hs.mem_order.mp hid
  obtain ⟨_, haddresses, hstored⟩ := compileObjects_addressed hs.nodup_order hids hcompile
  rw [hlinks.order, hlinks.length]
  refine ⟨haddresses, ?_⟩
  intro id hid
  apply hstored id (hs.mem_order.mpr hid)

end Step

/-! ### Addresses in the image -/

namespace Build

/-- The objects in front of an object in the order. -/
def inFront (build : Build) (id : ObjId) : List ObjId :=
  build.order.take (build.order.idxOf id)

/-- The bytes of the objects in front of an object that others have taken the place of. -/
def replacedInFront (build : Build) (id : ObjId) : Nat :=
  total (((build.inFront id).filter fun other => (build.object other).replacement.isSome).map
    fun other => (build.object other).size)

theorem order_eq {build : Build} {id : ObjId} (hid : id ∈ build.order) :
  ∃ behind, build.order = build.inFront id ++ id :: behind
  := by
  have hindex := List.idxOf_lt_length_of_mem hid
  use build.order.drop (build.order.idxOf id + 1)
  nth_rewrite 1 [← List.take_append_drop (build.order.idxOf id) build.order]
  rw [List.drop_eq_getElem_cons hindex, List.getElem_idxOf, inFront]

/-- The bytes in front of an object are those of survivors and those of objects that were
replaced. -/
theorem total_inFront (build : Build) (id : ObjId) :
  total ((build.inFront id).map fun other => (build.object other).size)
    = total (((build.inFront id).filter fun other => (build.object other).replacement.isNone).map
        fun other => (build.object other).size)
      + build.replacedInFront id
  := by
  simp only [replacedInFront, ← Option.not_isNone, total_eq_sum]
  rw [← List.sum_append, ← List.map_append]
  apply List.Perm.sum_eq
  apply List.Perm.map
  exact (List.filter_append_perm _ _).symm

/-- A survivor stands behind the survivors in front of it. -/
theorem survivors_eq {build : Build} {id : ObjId} (hid : id ∈ build.order)
    (hnone : (build.object id).replacement = none) :
  ∃ behind, build.survivors
    = ((build.inFront id).filter fun other => (build.object other).replacement.isNone)
      ++ id :: behind
  := by
  obtain ⟨behind, horder⟩ := order_eq hid
  use behind.filter fun other => (build.object other).replacement.isNone
  rw [survivors]
  nth_rewrite 1 [horder]
  rw [List.filter_append, List.filter_cons_of_pos (by rw [hnone]; rfl)]

/-- A block stands behind those in front of it. -/
theorem Tiles.address {build : Build} {start finish : Nat} {front back : List ObjId} {id : ObjId}
    (h : build.Tiles start (front ++ id :: back) finish) :
  (build.object id).address = start + total (front.map fun other => (build.object other).size)
  := by
  induction front generalizing start with
  | nil => exact h.1
  | cons other rest ih =>
    rw [ih h.2, List.map_cons, Nat.add_assoc]
    rfl

/-- Where blocks are placed one behind another and objects were compiled for addresses one behind
another, the two addresses of a survivor differ by what is reserved and what was replaced. -/
theorem address_add_replaced {build : Build} {reserved finish : Nat}
    (htiles : build.Tiles (headerSize + reserved) build.survivors finish)
    (hhub : ∀ i id, build.order[i]? = some id → (build.object id).hubAddress
      = headerSize + total ((build.order.take i).map fun id => (build.object id).size))
    {id : ObjId} (hid : id ∈ build.order) (hnone : (build.object id).replacement = none) :
  (build.object id).address + build.replacedInFront id = (build.object id).hubAddress + reserved
  := by
  obtain ⟨behind, hsurvivors⟩ := survivors_eq hid hnone
  rw [hsurvivors] at htiles
  have hplace := htiles.address
  have hcompiled := hhub _ id (List.getElem?_idxOf hid)
  rw [← inFront, total_inFront] at hcompiled
  omega

end Build

/-- Data whose value is the absolute address of a label holds the label's hub address. -/
theorem Build.Reckons.data {origin build : Build} {config : Config} {id : ObjId}
    (h : origin.Reckons build id) {k : Nat} {item : DatData} {placed : Placed} {bytes : Bytes}
    (hwrites : origin.WritesEntry config id k (.data item) placed bytes) {pos : Pos}
    {name : String} (hvalue : item.value = .absolute pos name) :
  ∃ label ∈ (build.object id).labels, lookup? origin.objects id [] name = some (.label label)
    ∧ bytes = (List.replicate (placed.length / item.size.toNat)
      (item.unit (.int (build.hubWord id label.offset)))).flatten
  := by
  obtain ⟨_, _, _, _, _, _, _, hpayload⟩ := hwrites
  obtain ⟨v, _, heval, hbytes, _⟩ := Step.yields_dataBytes hpayload
  obtain ⟨_, hv, _⟩ := Step.yields_evaluateIn.mp heval
  rw [hvalue] at hv
  obtain ⟨label, hlabel, hnamed, rfl⟩ := h.value hv
  exact ⟨label, hlabel, hnamed, hbytes⟩

/-- How the absolute addresses in an object's code and DAT section relate to where its block stands,
in an image with a number of bytes reserved behind its header. -/
structure Image.Reckoned (image : Image) (config : Config) (build : Build) (reserved : Nat)
    (id : ObjId) : Prop where
  moved : (build.object id).address + build.replacedInFront id
    = (build.object id).hubAddress + reserved
  denotes : ∀ offset, build.hubWord id offset = BitVec.ofNat 32 ((build.object id).address + offset)
    ↔ BitVec.ofNat 32 (build.replacedInFront id) = BitVec.ofNat 32 reserved
  code : ∀ method ∈ (build.object id).methods,
    image.memory.Holds ((build.object id).address + method.offset) method.code
    ∧ ∃ origin : Build, (origin.object id).outline.unlinked = (build.object id).outline.unlinked
      ∧ method.CompiledIn config origin id ∧ origin.Reckons build id
  entries : ∀ k entry, (build.object id).dat[k]? = some entry →
    ∃ (origin : Build) (placed : Placed) (bytes : Bytes),
      origin.WritesEntry config id k entry placed bytes ∧ origin.Reckons build id
      ∧ image.memory.Holds ((build.object id).address + placed.start.offset) bytes
      ∧ ∀ item pos name, entry = .data item → item.value = .absolute pos name →
        ∃ label ∈ (build.object id).labels, lookup? origin.objects id [] name = some (.label label)
          ∧ bytes = (List.replicate (placed.length / item.size.toNat)
            (item.unit (.int (build.hubWord id label.offset)))).flatten

/-- Addresses in one word are the same exactly if what they were moved by is. -/
theorem hubWord_eq_iff {build : Build} {id : ObjId} {reserved : Nat}
    (h : (build.object id).address + build.replacedInFront id
      = (build.object id).hubAddress + reserved) (offset : Nat) :
  build.hubWord id offset = BitVec.ofNat 32 ((build.object id).address + offset)
    ↔ BitVec.ofNat 32 (build.replacedInFront id) = BitVec.ofNat 32 reserved
  := by
  rw [Build.hubWord, ← BitVec.toNat_inj, ← BitVec.toNat_inj]
  simp only [BitVec.toNat_ofNat]
  omega

/-- The block of a survivor holds its code and its DAT section, both with the absolute addresses
that were reckoned when it was compiled. -/
theorem Linked.reckoned {laid build : Build} {image : Image} {config : Config} (hlaid : laid.Laid)
    (h : Linked laid image build) {id : ObjId} (hid : id < build.objects.length)
    (hnone : (build.object id).replacement = none) (hwritten : laid.Written config id)
    (hstored : laid.Stored config id) {reserved : Nat}
    (hmoved : (build.object id).address + build.replacedInFront id
      = (build.object id).hubAddress + reserved) :
  image.Reckoned config build reserved id
  := by
  have hsame := h.sharing.agree.objects id
  have hblock := h.holds id hid hnone
  have hcompiled := h.compiled hlaid hid
  have hanchor : (laid.object id).anchor = (build.object id).anchor :=
    (congrArg Object.anchor hsame :).symm
  refine ⟨hmoved, hubWord_eq_iff hmoved, ?_, ?_⟩
  · intro method hmethod
    refine ⟨hblock.inside (Build.blockOf_method hcompiled hmethod).2, ?_⟩
    have hmethods : (build.object id).methods = (laid.object id).methods :=
      (congrArg Object.methods hsame :)
    rw [hmethods] at hmethod
    obtain ⟨origin, horigin, hin⟩ := hwritten method hmethod
    have houtline : (origin.object id).outline.unlinked = (build.object id).outline.unlinked := by
      rw [horigin]
      exact (congrArg Object.outline hsame).symm
    exact ⟨origin, houtline, hin, .of_anchor (congrArg Object.anchor houtline :)⟩
  · intro k entry hentry
    have hdat : (build.object id).dat = (laid.object id).dat := (congrArg Object.dat hsame :)
    have hbytes : (build.object id).datBytes = (laid.object id).datBytes :=
      (congrArg Object.datBytes hsame :)
    have hheader : (build.object id).headerSize = (laid.object id).headerSize :=
      (congrArg Object.headerSize hsame :)
    rw [hdat] at hentry
    obtain ⟨origin, placed, bytes, hwrites, horigin, hbase, hholds⟩ := hstored k entry hentry
    have hreckons : origin.Reckons build id := .of_anchor (horigin.trans hanchor)
    have hsection := hblock.inside (Build.blockOf_holds hcompiled).2.2.2.1
    rw [hbytes, hheader] at hsection
    have hpayload := hsection.inside hholds
    rw [Nat.add_assoc, Nat.add_sub_cancel' hbase] at hpayload
    refine ⟨origin, placed, bytes, hwrites, hreckons, hpayload, ?_⟩
    rintro item pos name rfl hvalue
    exact hreckons.data hwrites hvalue

/-- Absolute addresses are those that an object has without reserved space and without sharing. The
block of a survivor stands further back by the bytes that are reserved, and further in front by the
bytes of the objects before it that were replaced. All of it holds within 32 bits. -/
theorem Program.absolute_addresses_moved {program : Program} {config : Config} {image : Image}
    {build : Build} (h : program.compile config = .ok (image, build)) (hexact : build.Exact)
    {id : ObjId} (hid : id < build.objects.length)
    (hsurvives : (build.object id).replacement = none) :
  ∃ registered linked reserved after, program.register = .ok registered
    ∧ Yields (do Step.build config; Step.share config) registered () linked
    ∧ Yields Step.reserved linked reserved after
    ∧ ((build.object id).address = (build.object id).hubAddress
      ↔ build.replacedInFront id = reserved)
    ∧ image.Reckoned config build reserved id
  := by
  obtain ⟨registered, laid, hregister, hbuild, hlink, hlaid⟩ := compile_spec h
  have hregistered := register_spec hregister
  obtain ⟨_, shared, reserved, after, finish, header, hshare, _, _, hreserved, hwritten⟩ :=
    Step.link_spec hlaid hlink
  obtain ⟨hlinked, _⟩ := Step.link_within hlaid hlink hexact
  have hagree := hlinked.sharing.agree
  have hidlaid : id < laid.objects.length := by
    rwa [← hagree.length]
  obtain ⟨hhub, hstored⟩ := Step.build_addressed hregistered hbuild
  have hhub' : ∀ i id, build.order[i]? = some id → (build.object id).hubAddress
      = headerSize + total ((build.order.take i).map fun id => (build.object id).size) := by
    have hsize (id : ObjId) : (build.object id).size = (laid.object id).size :=
      (congrArg Object.size (hagree.objects id) :)
    have haddress (id : ObjId) : (build.object id).hubAddress = (laid.object id).hubAddress :=
      (congrArg Object.hubAddress (hagree.objects id) :)
    simp only [hsize, haddress, hagree.order]
    exact hhub
  have hmem : id ∈ build.order := by
    rwa [hlinked.sharing.mem_order hlaid]
  have hmoved := Build.address_add_replaced hwritten.tiles hhub' hmem hsurvives
  refine ⟨registered, shared, reserved, after, hregister,
    yields_bind.mpr ⟨(), laid, hbuild, hshare⟩, hreserved, by omega, ?_⟩
  exact hlinked.reckoned hlaid hid hsurvives ((Step.build_spec hregistered hbuild).2 id hidlaid).2
    (hstored id hidlaid) hmoved

/-- A program with two objects that are the same in front of one that holds the address of a
label. -/
def tableProgram : Program :=
  let run : MethodDecl := { name := { name := "run" }, isPublic := true }
  { root := "top"
    objects := [
      { file := "top", methods := [run]
        objs := [{ name := { name := "a" }, file := { name := "left" } },
          { name := { name := "b" }, file := { name := "right" } },
          { name := { name := "c" }, file := { name := "table" } }] },
      { file := "left", methods := [run] },
      { file := "right", methods := [run] },
      { file := "table", methods := [run]
        dat := [.label { name := "here" } 4,
          .data { pos := {}, alignment := 4, size := 4, value := .absolute {} "here" }] }] }

/-- The block of the table stands 12 bytes in front of where it was compiled for. -/
theorem Program.absolute_addresses_moved_table :
  ∃ image build, tableProgram.compile { memorySize := 256 } = .ok (image, build) ∧ build.Exact
    ∧ 3 < build.objects.length ∧ (build.object 3).replacement = none
    ∧ build.replacedInFront 3 = 12 ∧ image.Reckoned { memorySize := 256 } build 0 3
  := by
  obtain ⟨⟨image, build⟩, h, hexact, hid, hnone, hreplaced, haddress, hhub⟩ :
      ∃ result, tableProgram.compile { memorySize := 256 } = .ok result ∧ result.2.Exact
        ∧ 3 < result.2.objects.length ∧ (result.2.object 3).replacement = none
        ∧ result.2.replacedInFront 3 = 12 ∧ (result.2.object 3).address = 52
        ∧ (result.2.object 3).hubAddress = 64 := by
    decide +kernel
  obtain ⟨_, _, reserved, _, _, _, _, _, hreckoned⟩ :=
    Program.absolute_addresses_moved h hexact hid hnone
  have hmoved := hreckoned.moved
  dsimp only at hreplaced haddress hhub
  have hreserved : reserved = 0 := by
    omega
  rw [hreserved] at hreckoned
  exact ⟨image, build, h, hexact, hid, hnone, hreplaced, hreckoned⟩

/-- The long of the table is the address that its label would have with both duplicates in front of
it, 72, and not the one where it stands, 60. -/
theorem Program.absolute_address_beyond_duplicate :
  ∃ image build, tableProgram.compile { memorySize := 256 } = .ok (image, build)
    ∧ (build.object 3).replacement = none ∧ (build.object 3).labels.map (·.offset) = [8]
    ∧ (build.object 3).address = 52 ∧ (build.object 3).hubAddress = 64
    ∧ (image.memory.drop (52 + 8)).take 4 = [72, 0, 0, 0]
  := by
  obtain ⟨⟨image, build⟩, h⟩ :
      ∃ result, tableProgram.compile { memorySize := 256 } = .ok result
        ∧ (result.2.object 3).replacement = none
        ∧ (result.2.object 3).labels.map (·.offset) = [8] ∧ (result.2.object 3).address = 52
        ∧ (result.2.object 3).hubAddress = 64
        ∧ (result.1.memory.drop (52 + 8)).take 4 = [72, 0, 0, 0] := by
    decide +kernel
  exact ⟨image, build, h⟩

end SpinHub
