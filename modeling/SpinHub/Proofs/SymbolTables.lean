import Mathlib
import SpinHub.Proofs.BootEntry
import SpinHub.Proofs.IncludeGraph
import SpinHub.Proofs.KeptStorage
import SpinHub.Proofs.PackedVariables

/-!
# Symbol tables

The symbols of an object stand in one list per kind, and one list of names leads from keys to
places in these lists. Names and places match one to one, after any additions, whether or not each
succeeds. Phases move no symbol: all but the measuring of DAT sections leave the names alone, and
measuring adds labels. So a name that is found always has a meaning, however far a build gets.
-/

namespace SpinHub

/-! ### Additions -/

/-- A symbol of an object. -/
inductive Symbol where
  | con (con : Con)
  | label (label : Label)
  | var (var : Var)
  | sub (sub : SubObject)
  | method (method : Method)

/-- The name of a symbol as declared. -/
def Symbol.name : Symbol → Ident
  | con item => item.name
  | label item => item.name
  | var item => item.name
  | sub item => item.name
  | method item => item.name

/-- A symbol to be added to an object. Only labels are given a key: it depends on the labels before
them. -/
inductive Addition where
  | con (con : Con)
  | label (key : String) (label : Label)
  | var (var : Var)
  | sub (sub : SubObject)
  | method (method : Method)

namespace Addition

def symbol : Addition → Symbol
  | con item => .con item
  | label _ item => .label item
  | var item => .var item
  | sub item => .sub item
  | method item => .method item

/-- The key that the symbol is added under. -/
def key : Addition → String
  | label key _ => key
  | addition => nameKey addition.symbol.name.name

/-- The fault of an addition whose key is taken. -/
def duplicate (addition : Addition) : Fault :=
  { cause := .duplicateSymbol addition.symbol.name.name, pos := addition.symbol.name.pos }

/-- The symbol is declared as its kind is. -/
def declare : Addition → Declare Unit
  | con item => .con item
  | label key item => .label key item
  | var item => .var item
  | sub item => .sub item
  | method item => .method item

end Addition

namespace Object

/-- Adds a symbol of any kind. -/
def add (object : Object) (addition : Addition) : Except Fault Object :=
  object.declare addition.declare

/-- The object that an addition leaves, whether or not it succeeds. -/
def attempt (object : Object) (addition : Addition) : Object :=
  (addition.declare.run.run object).2

/-- The object of a file after a run of additions. -/
def ofAdditions (file : String) (additions : List Addition) : Object :=
  additions.foldl attempt { file }

/-- The symbol at a place. -/
def symbolAt? (object : Object) : SymbolRef → Option Symbol
  | .con i => object.cons[i]?.map .con
  | .label i => object.labels[i]?.map .label
  | .var i => object.vars[i]?.map .var
  | .sub i => object.subs[i]?.map .sub
  | .method i => object.methods[i]?.map .method

/-- The place of the next symbol of a kind. -/
def nextRef (object : Object) : Symbol → SymbolRef
  | .con _ => .con object.cons.length
  | .label _ => .label object.labels.length
  | .var _ => .var object.vars.length
  | .sub _ => .sub object.subs.length
  | .method _ => .method object.methods.length

/-- Appends a symbol to the list of its kind. -/
def push (object : Object) : Symbol → Object
  | .con con => { object with cons := object.cons ++ [con] }
  | .label label => { object with labels := object.labels ++ [label] }
  | .var var => { object with vars := object.vars ++ [var] }
  | .sub sub => { object with subs := object.subs ++ [sub] }
  | .method method => { object with methods := object.methods ++ [method] }

/-- The object with a new symbol and its name. -/
def insert (object : Object) (addition : Addition) : Object :=
  { object.push addition.symbol with
    names := object.names ++ [(addition.key, object.nextRef addition.symbol)] }

variable {object object' : Object} {addition : Addition}

/-- All kinds of symbols are added in one way: under a key that must be free, and nothing is done
before the key is found free. -/
theorem run_declare (object : Object) (addition : Addition) :
  addition.declare.run.run object
    = if (object.find? addition.key).isSome then (.error addition.duplicate, object)
      else (.ok (), object.insert addition)
  := by
  have hsymbol : addition.declare = .symbol addition.key addition.symbol.name
      (·.nextRef addition.symbol) (·.push addition.symbol) := by
    cases addition <;> rfl
  rw [hsymbol, Declare.run_symbol]
  cases object.find? addition.key with
  | some ref => rfl
  | none => cases addition <;> rfl

/-- An addition succeeds exactly if its key is free. -/
theorem add_eq (object : Object) (addition : Addition) :
  object.add addition
    = if (object.find? addition.key).isSome then .error addition.duplicate
      else .ok (object.insert addition)
  := by
  rw [add, declare, run_declare]
  split_ifs <;> rfl

theorem map_concat_getElem? {α : Type} (kind : α → Symbol) (items : List α) (item : α) (i : Nat) :
  (items ++ [item])[i]?.map kind
    = if i = items.length then some (kind item) else items[i]?.map kind
  := by
  grind

/-- An inserted symbol stands at the next place of its kind, and all others stay. -/
theorem symbolAt?_insert (object : Object) (addition : Addition) (ref : SymbolRef) :
  (object.insert addition).symbolAt? ref
    = if ref = object.nextRef addition.symbol then some addition.symbol else object.symbolAt? ref
  := by
  cases addition <;> cases ref <;>
    simp only [insert, push, nextRef, Addition.symbol, symbolAt?, map_concat_getElem?,
      SymbolRef.con.injEq, SymbolRef.label.injEq, SymbolRef.var.injEq, SymbolRef.sub.injEq,
      SymbolRef.method.injEq, reduceCtorEq, if_false]

/-- Nothing stands at the next place of a kind. -/
theorem symbolAt?_nextRef (object : Object) (symbol : Symbol) :
  object.symbolAt? (object.nextRef symbol) = none
  := by
  cases symbol <;> simp [nextRef, symbolAt?]

/-- The key of an inserted symbol leads to its place, and all other keys stay. -/
theorem find?_insert (hfree : object.find? addition.key = none) (key : String) :
  (object.insert addition).find? key
    = if key = addition.key then some (object.nextRef addition.symbol) else object.find? key
  := by
  rw [find?, insert, List.lookup_append, ← find?]
  split_ifs with hkey
  · rw [hkey, hfree, List.lookup_cons_self]
    rfl
  · rw [List.lookup, beq_false_of_ne hkey]
    apply Option.or_none

/-! ### Names and places -/

/-- The name of the symbol at a place. -/
def nameAt? (object : Object) (ref : SymbolRef) : Option Ident :=
  (object.symbolAt? ref).map Symbol.name

/-- The symbol that was added under a key. -/
def symbolUnder? (object : Object) (key : String) : Option Symbol :=
  (object.find? key).bind object.symbolAt?

/-- Keys and places match one to one: each key leads to a symbol, which has that key unless it is a
label, and to each symbol leads one key. -/
structure Indexed (object : Object) : Prop where
  place : ∀ {key ref}, object.find? key = some ref → ∃ name, object.nameAt? ref = some name
    ∧ ((∀ i, ref ≠ .label i) → key = nameKey name.name)
  found : ∀ {ref name}, object.nameAt? ref = some name → ∃ key, object.find? key = some ref
  unique : ∀ {key key' ref}, object.find? key = some ref → object.find? key' = some ref →
    key = key'

/-- The name of an inserted symbol stands at the next place of its kind. -/
theorem nameAt?_insert (object : Object) (addition : Addition) (ref : SymbolRef) :
  (object.insert addition).nameAt? ref
    = if ref = object.nextRef addition.symbol then some addition.symbol.name
      else object.nameAt? ref
  := by
  rw [nameAt?, symbolAt?_insert]
  split_ifs <;> rfl

theorem nameAt?_nextRef (object : Object) (symbol : Symbol) :
  object.nameAt? (object.nextRef symbol) = none
  := by
  rw [nameAt?, symbolAt?_nextRef]
  rfl

/-- Only labels are added under another key than that of their name. -/
theorem key_of_nextRef (object : Object) (addition : Addition)
    (h : ∀ i, object.nextRef addition.symbol ≠ .label i) :
  addition.key = nameKey addition.symbol.name.name
  := by
  cases addition with
  | label key label => exact absurd rfl (h object.labels.length)
  | _ => rfl

namespace Indexed

/-- An object without symbols is indexed. -/
theorem of_blank (file : String) (dat : List DatEntry) :
  ({ file, dat } : Object).Indexed
  where
  place := nofun
  found {ref _} h := by cases ref <;> cases h
  unique := nofun

/-- No key leads to a place that is still free. -/
theorem ne_nextRef (h : object.Indexed) {key : String} {ref : SymbolRef}
    (hfind : object.find? key = some ref) (symbol : Symbol) :
  ref ≠ object.nextRef symbol
  := by
  rintro rfl
  obtain ⟨name, hname, _⟩ := h.place hfind
  rw [nameAt?_nextRef] at hname
  cases hname

/-- A symbol under a free key gets a place that no other key leads to. -/
theorem insert (h : object.Indexed) (hfree : object.find? addition.key = none) :
  (object.insert addition).Indexed
  where
  place {key ref} hfind := by
    rw [find?_insert hfree] at hfind
    rw [nameAt?_insert]
    split_ifs at hfind with hkey
    · obtain rfl := Option.some.inj hfind
      rw [if_pos rfl, hkey]
      exact ⟨_, rfl, object.key_of_nextRef addition⟩
    · rw [if_neg (h.ne_nextRef hfind _)]
      apply h.place hfind
  found {ref name} hname := by
    rw [nameAt?_insert] at hname
    split_ifs at hname with href
    · use addition.key
      rw [find?_insert hfree, if_pos rfl, href]
    · obtain ⟨key, hfind⟩ := h.found hname
      use key
      have hkey : key ≠ addition.key := by
        rintro rfl
        rw [hfree] at hfind
        cases hfind
      rw [find?_insert hfree, if_neg hkey, hfind]
  unique {key key' ref} hfind hfind' := by
    rw [find?_insert hfree] at hfind hfind'
    split_ifs at hfind hfind' with hkey hkey' hkey'
    · rw [hkey, hkey']
    · obtain rfl := Option.some.inj hfind
      exact absurd rfl (h.ne_nextRef hfind' _)
    · obtain rfl := Option.some.inj hfind'
      exact absurd rfl (h.ne_nextRef hfind _)
    · apply h.unique hfind hfind'

/-- Additions that succeed keep names and places matching. -/
theorem add (h : object.Indexed) (hadd : object.add addition = .ok object') :
  object'.Indexed
  := by
  rw [add_eq] at hadd
  split_ifs at hadd with hfind
  cases hadd
  apply h.insert (Option.not_isSome_iff_eq_none.mp hfind)

end Indexed

/-! ### Runs of additions -/

/-- An addition leaves the object with the symbol, or as it was if the key is taken. -/
theorem attempt_eq (object : Object) (addition : Addition) :
  object.attempt addition
    = if (object.find? addition.key).isSome then object else object.insert addition
  := by
  rw [attempt, run_declare]
  split_ifs <;> rfl

theorem ofAdditions_concat (file : String) (additions : List Addition) (addition : Addition) :
  ofAdditions file (additions ++ [addition]) = (ofAdditions file additions).attempt addition
  := List.foldl_append

/-- A key that is taken leads to a symbol. -/
theorem Indexed.isSome_symbolUnder? (h : object.Indexed) (key : String) :
  (object.symbolUnder? key).isSome = (object.find? key).isSome
  := by
  rw [symbolUnder?]
  cases hfind : object.find? key with
  | none => rfl
  | some ref =>
    obtain ⟨name, hname, _⟩ := h.place hfind
    obtain ⟨symbol, hsymbol, _⟩ := Option.map_eq_some_iff.mp hname
    rw [Option.bind_some, hsymbol]
    rfl

/-- Under the key of an inserted symbol stands that symbol, and nothing changes under other keys. -/
theorem Indexed.symbolUnder?_insert (h : object.Indexed) (hfree : object.find? addition.key = none)
    (key : String) :
  (object.insert addition).symbolUnder? key
    = if key = addition.key then some addition.symbol else object.symbolUnder? key
  := by
  rw [symbolUnder?, find?_insert hfree]
  split_ifs with hkey
  · rw [Option.bind_some, symbolAt?_insert, if_pos rfl]
  · rw [symbolUnder?]
    cases hfind : object.find? key with
    | none => rfl
    | some ref => rw [Option.bind_some, Option.bind_some, symbolAt?_insert,
        if_neg (h.ne_nextRef hfind _)]

/-- An object holds a run of additions: under each key stands what was first added under it. -/
structure Holds (object : Object) (additions : List Addition) : Prop where
  indexed : object.Indexed
  first : ∀ key, object.symbolUnder? key
    = (additions.find? fun addition => addition.key = key).map Addition.symbol

namespace Holds

variable {additions : List Addition}

/-- An addition takes effect exactly if it is the first one of its key. -/
theorem attempt (h : object.Holds additions) (addition : Addition) :
  (object.attempt addition).Holds (additions ++ [addition])
  := by
  -- a key is taken if and only if something was added under it before
  have htaken := h.indexed.isSome_symbolUnder? addition.key
  rw [h.first, Option.isSome_map] at htaken
  rw [attempt_eq]
  split_ifs with hfind
  · refine ⟨h.indexed, fun key => ?_⟩
    rw [h.first, List.find?_append]
    by_cases hkey : addition.key = key
    · rw [hfind, hkey] at htaken
      rw [Option.or_of_isSome htaken]
    · rw [List.find?_cons_of_neg (by simpa using hkey), List.find?_nil, Option.or_none]
  · have hfree := Option.not_isSome_iff_eq_none.mp hfind
    refine ⟨h.indexed.insert hfree, fun key => ?_⟩
    rw [h.indexed.symbolUnder?_insert hfree, List.find?_append]
    split_ifs with hkey
    · subst hkey
      rw [hfree, Option.isSome_none, Option.isSome_eq_false_iff, Option.isNone_iff_eq_none]
        at htaken
      rw [htaken, Option.none_or, List.find?_cons_of_pos (by simp)]
      rfl
    · rw [List.find?_cons_of_neg (by simpa using Ne.symm hkey), List.find?_nil, Option.or_none,
        h.first]

/-- Each symbol was added, and its key is the only one that leads to it. -/
theorem of_symbolAt (h : object.Holds additions) {ref : SymbolRef} {symbol : Symbol}
    (hsymbol : object.symbolAt? ref = some symbol) :
  ∃ addition ∈ additions, addition.symbol = symbol
    ∧ ∀ key, object.find? key = some ref ↔ key = addition.key
  := by
  have hname : object.nameAt? ref = some symbol.name := by
    rw [nameAt?, hsymbol]
    rfl
  obtain ⟨key, hfind⟩ := h.indexed.found hname
  have hunder := h.first key
  rw [symbolUnder?, hfind, Option.bind_some, hsymbol] at hunder
  obtain ⟨addition, haddition, hsame⟩ := Option.map_eq_some_iff.mp hunder.symm
  obtain rfl : addition.key = key := by simpa using List.find?_some haddition
  refine ⟨addition, List.mem_of_find?_eq_some haddition, hsame, fun other => ?_⟩
  constructor
  · intro hother
    apply h.indexed.unique hother hfind
  · rintro rfl
    exact hfind

end Holds

/-- After any additions the object holds them, by induction from the last one. -/
theorem ofAdditions_holds (file : String) (additions : List Addition) :
  (ofAdditions file additions).Holds additions
  := by
  induction additions using List.reverseRecOn with
  | nil => exact ⟨Indexed.of_blank file [], fun _ => rfl⟩
  | append_singleton additions addition ih =>
    rw [ofAdditions_concat]
    apply ih.attempt addition

/-! ### Declared objects -/

/-- Declarations of one kind in turn keep names and places matching. -/
theorem Indexed.forM {α : Type} {declare : α → Declare Unit} {items : List α}
    (addition : α → Addition) (hdeclare : ∀ item, declare item = (addition item).declare)
    (h : object.Indexed) (hitems : object.declare (items.forM declare) = .ok object') :
  object'.Indexed
  := by
  induction items generalizing object with
  | nil =>
    cases hitems
    exact h
  | cons item items ih =>
    rw [declare_forM_cons] at hitems
    obtain ⟨named, hnamed, hrest⟩ := ok_of_bind hitems
    rw [hdeclare] at hnamed
    apply ih (h.add hnamed) hrest

/-- In an object that a file declares, names and places match. -/
theorem ofSource_indexed {source : SourceObject} (h : ofSource source = .ok object) :
  object.Indexed
  := by
  rw [ofSource_eq] at h
  obtain ⟨_, hcons, hrest⟩ := ok_of_bind h
  obtain ⟨_, hvars, hrest⟩ := ok_of_bind hrest
  obtain ⟨_, hsubs, hmethods⟩ := ok_of_bind hrest
  have hblank := Indexed.of_blank (FileName.normalize source.file) source.dat
  have hconstants := hblank.forM Addition.con (fun _ => rfl) hcons
  have hvariables := hconstants.forM Addition.var (fun _ => rfl) hvars
  have hincluded := hvariables.forM Addition.sub (fun _ => rfl) hsubs
  apply hincluded.forM Addition.method (fun _ => rfl) hmethods

/-- The names of an object, by key and by place. -/
def directory (object : Object) :
    List (String × SymbolRef) × List Ident × List Ident × List Ident × List Ident × List Ident :=
  (object.names, object.cons.map (·.name), object.labels.map (·.name), object.vars.map (·.name),
    object.subs.map (·.name), object.methods.map (·.name))

theorem nameAt?_eq (object : Object) (ref : SymbolRef) :
  object.nameAt? ref
    = match ref with
      | .con i => object.directory.2.1[i]?
      | .label i => object.directory.2.2.1[i]?
      | .var i => object.directory.2.2.2.1[i]?
      | .sub i => object.directory.2.2.2.2.1[i]?
      | .method i => object.directory.2.2.2.2.2[i]?
  := by
  cases ref <;>
  · rw [nameAt?, symbolAt?, Option.map_map]
    exact List.getElem?_map.symm

/-- Only names matter. -/
theorem Indexed.of_directory (h : object.Indexed) (heq : object'.directory = object.directory) :
  object'.Indexed
  := by
  have hnames : object'.find? = object.find? := by
    funext key
    exact congrArg (fun directory => directory.1.lookup key) heq
  have hnameAt : object'.nameAt? = object.nameAt? := by
    funext ref
    rw [nameAt?_eq, nameAt?_eq, heq]
  refine ⟨?_, ?_, ?_⟩
  · rw [hnames, hnameAt]
    exact h.place
  · rw [hnames, hnameAt]
    exact h.found
  · rw [hnames]
    exact h.unique

theorem directory_passLabel (object : Object) (name : String) :
  (object.passLabel name).directory = object.directory
  := by
  unfold passLabel
  split_ifs <;> rfl

/-- Slots are no part of the directory. -/
theorem directory_withSubSlots (object : Object) (counts : List Nat) :
  (object.withSubSlots counts).directory = object.directory
  := by
  rw [directory, withSubSlots, map_placeSubs fun _ _ _ => rfl, directory]

theorem directory_withMethodSlots (object : Object) :
  object.withMethodSlots.directory = object.directory
  := by
  have hnames := congrArg (List.map (·.name)) object.declarations_withMethodSlots
  rw [declarations, declarations, List.map_map, List.map_map] at hnames
  change object.withMethodSlots.methods.map (·.name) = object.methods.map (·.name) at hnames
  rw [directory, hnames]
  rfl

/-- Laying out variables moves none. -/
theorem directory_withVars (object : Object) {extents : List (List Nat)}
    (h : extents.length = object.vars.length) :
  (object.withVars extents).directory = object.directory
  := by
  have hnames : (object.withVars extents).vars.map (·.name) = object.vars.map (·.name) := by
    rw [object.map_withVars fun _ _ => rfl]
    apply List.ext_getElem
    · simp [h]
    · simp
  rw [directory, hnames]
  rfl

theorem directory_outline (object : Object) :
  object.outline.directory = object.directory
  := by
  rw [directory, outline, List.map_map, directory]
  rfl

/-- Targets are no part of the directory. -/
theorem directory_untargeted (object : Object) :
  object.untargeted.directory = object.directory
  := by
  rw [directory, untargeted, List.map_map, directory]
  rfl

end Object

/-- The symbol that a name stands for. -/
def Meaning.symbol? : Meaning → Option Symbol
  | con _ _ item => some (.con item)
  | label item => some (.label item)
  | var item => some (.var item)
  | sub item => some (.sub item)
  | method item => some (.method item)
  | slot _ | file _ => none

/-- The meaning of a place is the symbol that stands there. -/
theorem Object.symbol?_meaning? (object : Object) (id : ObjId) (ref : SymbolRef) :
  (object.meaning? id ref).bind Meaning.symbol? = object.symbolAt? ref
  := by
  cases ref <;>
  · rw [meaning?, symbolAt?, Option.bind_map]
    exact Option.map_eq_bind.symm

/-! ### Builds -/

namespace Build

/-- In every object keys and places match. -/
def Indexed (build : Build) : Prop := ∀ id, (build.object id).Indexed

namespace Indexed

theorem tolerant :
  Tolerant (Maintains Indexed)
  := by
  apply Maintains.tolerant
  intro b b' hunchanged h id
  rw [hunchanged.object]
  apply h

/-- A change of one object keeps all indexed if it keeps that one so. -/
theorem modifyObject {b : Build} {id : ObjId} {f : Object → Object} (h : b.Indexed)
    (hf : (f (b.object id)).Indexed) :
  (b.modifyObject id f).Indexed
  := by
  intro other
  obtain hsame | ⟨rfl, hchanged⟩ := b.object_modifyObject_cases id f other
  · rw [hsame]
    apply h
  · rwa [hchanged]

/-- Changes that leave the directory of an object alone keep all objects indexed. -/
theorem admits (id : ObjId) :
  Admits (Maintains Indexed) id Object.directory
  := fun _ _ hf h => h.modifyObject ((h id).of_directory hf)

/-- Phases change no names but for labels that they add. -/
theorem enduring :
  Enduring (Maintains Indexed)
  where
  toTolerant := tolerant
  subSlots b id counts := admits id b _ (Object.directory_withSubSlots _ counts)
  table b id _ := admits id b _ rfl
  methodSlots b id := admits id b _ (Object.directory_withMethodSlots _)
  hubAddress b id _ := admits id b _ rfl
  declared b id key label object hadd name h := by
    have hadded : (b.object id).add (.label key label) = .ok object := hadd
    apply h.modifyObject
    apply ((h id).add hadded).of_directory (object.directory_passLabel name)
  vars b id extents hlength := admits id b _ (Object.directory_withVars _ hlength)
  written id := .of_comp Object.directory (admits id)
  compiled id := by
    refine .of_comp Object.directory ?_
    rw [funext Object.directory_outline]
    exact admits id

/-- The objects of a registered program are indexed. -/
theorem of_registered {program : Program} {build : Build} (h : program.register = .ok build) :
  build.Indexed
  := by
  intro id
  by_cases hid : id < build.objects.length
  · obtain ⟨source, _, hsource⟩ := (Program.register_builds h).declared id hid
    have hdeclared := Object.ofSource_indexed hsource
    apply hdeclared.of_directory (Object.directory_untargeted _).symm
  · rw [object_of_le (Nat.le_of_not_lt hid)]
    exact Object.Indexed.of_blank "" []

/-- Sharing identical objects moves no symbol. -/
theorem of_shares {laid build : Build} (h : laid.Indexed) (hshares : laid.Shares build) :
  build.Indexed
  := by
  intro id
  apply (h id).of_directory
  exact (congrArg Object.directory (hshares.agree.objects id) :)

/-- The objects of a program are indexed however far its compilation got. -/
theorem compiled {program : Program} {registered : Build}
    (h : program.register = .ok registered) (config : Config) :
  (registered.compiled config).Indexed
  := by
  have hbuild := Step.build_steady enduring config
  obtain ⟨fault, hfails⟩ | ⟨u, laid, hyields, hshares⟩ := Program.compiled_cases h config
  · apply hbuild.fails hfails (of_registered h)
  · apply of_shares (hbuild.yields hyields (of_registered h)) hshares

end Indexed

/-- Every name that an object knows, and that no slot of the frame hides, has a meaning: the symbol
at the place that its key leads to. -/
def Resolves (build : Build) : Prop :=
  ∀ id scope name ref, scope.lookup ((build.object id).key name) = none →
    (build.object id).find? ((build.object id).key name) = some ref →
    ∃ meaning symbol, lookup? build.objects id scope name = some meaning
      ∧ meaning.symbol? = some symbol ∧ (build.object id).symbolAt? ref = some symbol

/-- In indexed objects every name that is found has a meaning. -/
theorem Indexed.resolves {build : Build} (h : build.Indexed) :
  build.Resolves
  := by
  intro id scope name ref hscope hfind
  obtain ⟨_, hname, _⟩ := (h id).place hfind
  obtain ⟨symbol, hsymbol, _⟩ := Option.map_eq_some_iff.mp hname
  have hmeaning := (build.object id).symbol?_meaning? id ref
  rw [hsymbol] at hmeaning
  obtain ⟨meaning, hmeaning, hsame⟩ := Option.bind_eq_some_iff.mp hmeaning
  refine ⟨meaning, symbol, ?_, hsame, hsymbol⟩
  rw [Build.object] at hscope hfind hmeaning
  rw [lookup?]
  simp only [hscope, hfind, hmeaning]

end Build

/-- A label is refused exactly if its key is taken, and then the whole build stays as it was. -/
theorem Step.fails_declareLabel {id : ObjId} {start : Cursor} {name : Ident} {s s' : Build}
    {fault : Fault} :
  Fails (declareLabel id start name) s fault s'
    ↔ ((s.object id).find? ((s.object id).key name.name)).isSome
      ∧ fault = { cause := .duplicateSymbol name.name, pos := name.pos } ∧ s' = s
  := by
  have hadd := (s.object id).add_eq (.label ((s.object id).key name.name) (start.label name))
  rw [Object.add, Addition.declare, Addition.key] at hadd
  rw [Fails, run_declareLabel, hadd]
  split_ifs with hfind
  · constructor
    · intro h
      cases h
      exact ⟨hfind, rfl, rfl⟩
    · rintro ⟨_, rfl, rfl⟩
      rfl
  · constructor
    · intro h
      cases h
    · rintro ⟨htaken, _⟩
      exact absurd htaken hfind

/-- The names and the symbols of an object match one to one. After any additions each key leads to a
symbol, each symbol was added and has its own key only, and under a key stands what was first added
under it. An addition is refused exactly if its key is taken, and changes nothing then. However far
the phases of a registered program get, every name that is found has a meaning. -/
theorem symbols_match_keys :
  (∀ file additions, let table := Object.ofAdditions file additions
    (∀ key ref, table.find? key = some ref → (table.symbolAt? ref).isSome)
      ∧ (∀ ref symbol, table.symbolAt? ref = some symbol → ∃ addition ∈ additions,
        addition.symbol = symbol ∧ ∀ key, table.find? key = some ref ↔ key = addition.key)
      ∧ (∀ key, table.symbolUnder? key
        = (additions.find? fun addition => addition.key = key).map Addition.symbol)
      ∧ (∀ addition fault, table.add addition = .error fault
        ↔ (table.find? addition.key).isSome ∧ fault = addition.duplicate)
      ∧ ∀ addition, (table.find? addition.key).isSome →
        Object.ofAdditions file (additions ++ [addition]) = table)
    ∧ (∀ id start name s s' fault, Fails (Step.declareLabel id start name) s fault s'
      ↔ ((s.object id).find? ((s.object id).key name.name)).isSome
        ∧ fault = { cause := .duplicateSymbol name.name, pos := name.pos } ∧ s' = s)
    ∧ ∀ program registered, Program.register program = .ok registered →
      (∀ phases : List Phase, (phases.foldl Phase.run registered).Indexed
        ∧ (phases.foldl Phase.run registered).Resolves)
      ∧ ∀ config, (registered.compiled config).Indexed ∧ (registered.compiled config).Resolves
  := by
  refine ⟨?_, ?_, ?_⟩
  · intro file additions table
    have htable : table.Holds additions := Object.ofAdditions_holds file additions
    refine ⟨?_, fun _ _ => htable.of_symbolAt, htable.first, ?_, ?_⟩
    · intro key ref hfind
      have hunder := htable.indexed.isSome_symbolUnder? key
      rwa [Object.symbolUnder?, hfind] at hunder
    · intro addition fault
      rw [Object.add_eq]
      split_ifs with hfind
      · rw [Except.error.injEq, eq_comm]
        exact ⟨fun h => ⟨hfind, h⟩, fun h => h.2⟩
      · exact ⟨nofun, fun h => absurd h.1 hfind⟩
    · intro addition hfind
      rw [Object.ofAdditions_concat, Object.attempt_eq, if_pos hfind]
  · intro id start name s s' fault
    apply Step.fails_declareLabel
  · intro program registered h
    have hregistered := Build.Indexed.of_registered h
    constructor
    · intro phases
      have hphases := Phase.foldl_run_maintains Build.Indexed.enduring phases hregistered
      exact ⟨hphases, hphases.resolves⟩
    · intro config
      have hcompiled := Build.Indexed.compiled h config
      exact ⟨hcompiled, hcompiled.resolves⟩

/-- A root whose DAT section declares a label twice, with other labels around. -/
def relabeledProgram : Program :=
  { root := "top"
    objects := [
      { file := "top"
        vars := [{ name := { name := "state" }, size := .long }]
        methods := [{ name := { name := "run" }, isPublic := true }]
        dat := [.label { name := "first" } 0, .label { name := ":step" } 0,
          .label { name := "second" } 0, .label { name := "First" } 0,
          .label { name := "third" } 0] }] }

/-- Measuring stops at the second `First`. The labels before it stay and have their meanings, also
the local one, and the label behind it is not there. A variable is refused under the key of a
constant. -/
theorem symbols_match_keys_interrupted :
  (∃ registered stopped fault, relabeledProgram.register = .ok registered
    ∧ Fails (Step.measureDat {} 0) registered fault stopped
    ∧ (stopped.object 0).find? "FIRST:STEP" = some (.label 1)
    ∧ (stopped.object 0).find? "SECOND" = some (.label 2)
    ∧ (stopped.object 0).find? "THIRD" = none
    ∧ ∃ meaning symbol, lookup? stopped.objects 0 [] "second" = some meaning
      ∧ meaning.symbol? = some symbol ∧ (stopped.object 0).symbolAt? (.label 2) = some symbol)
    ∧ let limit : Addition := .con { name := { name := "limit" }, value := .int {} 1 }
      let other : Addition := .var { name := { name := "Limit" }, size := .byte, dims := [] }
      Object.ofAdditions "top" ([limit] ++ [other]) = Object.ofAdditions "top" [limit]
  := by
  obtain ⟨htables, _, hbuilds⟩ := symbols_match_keys
  constructor
  · obtain ⟨registered, h, hfails, hkey, hstep, hsecond, hthird⟩ :
        ∃ registered, relabeledProgram.register = .ok registered
          ∧ ¬ (∃ u after, Yields (Step.measureDat {} 0) registered u after ∧ True)
          ∧ ((Phase.run registered (.measure {} 0)).object 0).key "second" = "SECOND"
          ∧ ((Phase.run registered (.measure {} 0)).object 0).find? "FIRST:STEP" = some (.label 1)
          ∧ ((Phase.run registered (.measure {} 0)).object 0).find? "SECOND" = some (.label 2)
          ∧ ((Phase.run registered (.measure {} 0)).object 0).find? "THIRD" = none := by
      decide +kernel
    have hresolves := ((hbuilds relabeledProgram registered h).1 [.measure {} 0]).2
    rcases hrun : (Step.measureDat {} 0).run.run registered with ⟨fault | u, stopped⟩
    · obtain rfl : Phase.run registered (.measure {} 0) = stopped := congrArg Prod.snd hrun
      refine ⟨registered, _, fault, h, hrun, hstep, hsecond, hthird, ?_⟩
      apply hresolves 0 [] "second" (.label 2) rfl
      exact (congrArg _ hkey).trans hsecond
    · exact absurd ⟨u, stopped, hrun, trivial⟩ hfails
  · intro limit other
    apply (htables "top" [limit]).2.2.2.2
    decide +kernel

end SpinHub
