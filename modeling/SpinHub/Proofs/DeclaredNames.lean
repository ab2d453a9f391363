import Mathlib
import SpinHub.Proofs.Runs

/-!
# Declared names

The symbols of a file are declared one kind after another, each under a key that must be free. So
a file has an object exactly if the keys of its names and of the built-in constants are distinct,
and the object then holds what the file declares.
-/

namespace SpinHub

variable {α β : Type}

/-! ### Results -/

/-- What succeeds in two parts succeeds in each. -/
theorem ok_of_bind {x : Except Fault α} {f : α → Except Fault β} {b : β} (h : x >>= f = .ok b) :
  ∃ a, x = .ok a ∧ f a = .ok b
  := by
  cases x with
  | error fault => cases h
  | ok a => use a, rfl, h

theorem bind_of_ok {x : Except Fault α} {f : α → Except Fault β} {a : α} (h : x = .ok a) :
  x >>= f = f a
  := by
  rw [h]
  rfl

theorem ok_of_mapError {x : Except Fault α} {f : Fault → Fault} {a : α}
    (h : x.mapError f = .ok a) :
  x = .ok a
  := by
  cases x with
  | error fault => cases h
  | ok b =>
    cases h
    rfl

/-! ### Declarations -/

/-- A symbol is refused if its key is taken, and then the object is as it was. -/
theorem Declare.run_symbol (key : String) (name : Ident) (next : Object → SymbolRef)
    (push : Object → Object) (object : Object) :
  (symbol key name next push).run.run object
    = match object.find? key with
      | some _ => (.error { cause := .duplicateSymbol name.name, pos := name.pos }, object)
      | none => (.ok (), push { object with names := object.names ++ [(key, next object)] })
  := by
  rw [symbol, run_get_bind, run_bind, enter, run_get_bind]
  cases object.find? key <;> rfl

namespace Object

/-- A symbol is declared if its key is free. -/
theorem declare_symbol (object : Object) (key : String) (name : Ident) (next : Object → SymbolRef)
    (push : Object → Object) :
  object.declare (.symbol key name next push)
    = match object.find? key with
      | some _ => .error { cause := .duplicateSymbol name.name, pos := name.pos }
      | none => .ok (push { object with names := object.names ++ [(key, next object)] })
  := by
  rw [declare, Declare.run_symbol]
  cases object.find? key <;> rfl

/-- Declarations may be made in parts. -/
theorem declare_bind (object : Object) (first : Declare Unit) (rest : Unit → Declare Unit) :
  object.declare (first >>= rest)
    = object.declare first >>= fun object' => object'.declare (rest ())
  := by
  rw [declare, declare, run_bind]
  rcases first.run.run object with ⟨fault | _, object'⟩ <;> rfl

theorem declare_forM_cons {α : Type} (object : Object) (add : α → Declare Unit) (item : α)
    (items : List α) :
  object.declare ((item :: items).forM add)
    = object.declare (add item) >>= fun object' => object'.declare (items.forM add)
  := declare_bind object (add item) fun _ => items.forM add

/-- The keys of all names of an object. -/
def keys (object : Object) : List String := object.names.map Prod.fst

/-- An object without its names. -/
def unnamed (object : Object) : Object := { object with names := [] }

/-- A key is free if no name has it. -/
theorem find?_eq_none_iff {object : Object} {key : String} :
  object.find? key = none ↔ key ∉ object.keys
  := by
  rw [find?, List.lookup_eq_none_iff, keys, List.mem_map]
  constructor
  · rintro h ⟨entry, hentry, rfl⟩
    simpa using h entry hentry
  · intro h entry hentry
    rw [bne_iff_ne]
    rintro rfl
    apply h
    use entry

end Object

/-- Items are declared one after another: each needs a free key, and `gather` says what an object
becomes through a run of them, names apart. -/
structure Declares {α : Type} (add : α → Declare Unit) (key : α → String)
    (gather : Object → List α → Object) : Prop where
  nil : ∀ object, gather object [] = object
  free : ∀ object item, key item ∉ object.keys → ∃ named, object.declare (add item) = .ok named
    ∧ named.keys = object.keys ++ [key item]
    ∧ ∀ rest, (gather named rest).unnamed = (gather object (item :: rest)).unnamed
  taken : ∀ (object : Object) item, key item ∈ object.keys →
    ∃ fault, object.declare (add item) = .error fault

namespace Declares

/-- Symbols of one kind are declared into the list of that kind, which `list` reads and `put`
replaces. -/
theorem of_symbol {key : α → String} (name : α → Ident) (next : Object → SymbolRef)
    (list : Object → List α) (put : Object → List α → Object)
    (hself : ∀ object, put object (list object) = object)
    (hlist : ∀ object items, list (put object items) = items)
    (hput : ∀ object items items', put (put object items) items' = put object items')
    (hnames : ∀ object items, (put object items).names = object.names)
    (hlistNames : ∀ object names, list { object with names } = list object)
    (hputNames : ∀ object names items,
      (put { object with names } items).unnamed = (put object items).unnamed) :
  Declares
    (fun item => .symbol (key item) (name item) next
      fun object => put object (list object ++ [item]))
    key fun object items => put object (list object ++ items)
  where
  nil object := by rw [List.append_nil, hself]
  free object item hfree := by
    have hfind := Object.find?_eq_none_iff.mpr hfree
    have hdeclare := object.declare_symbol (key item) (name item) next
      fun object => put object (list object ++ [item])
    rw [hfind] at hdeclare
    refine ⟨_, hdeclare, ?_, ?_⟩
    · rw [Object.keys, hnames, List.map_append]
      rfl
    · intro rest
      rw [hlist, hput, hputNames, hlistNames, List.append_assoc, List.singleton_append]
  taken object item htaken := by
    cases hfind : object.find? (key item) with
    | none => exact absurd htaken (Object.find?_eq_none_iff.mp hfind)
    | some found =>
      rw [Object.declare_symbol, hfind]
      exact ⟨_, rfl⟩

theorem con :
  Declares Declare.con (fun con => nameKey con.name.name)
    fun object cons => { object with cons := object.cons ++ cons }
  := of_symbol Con.name _ Object.cons (fun object cons => { object with cons }) (fun _ => rfl)
    (fun _ _ => rfl) (fun _ _ _ => rfl) (fun _ _ => rfl) (fun _ _ => rfl) fun _ _ _ => rfl

theorem var :
  Declares Declare.var (fun var => nameKey var.name.name)
    fun object vars => { object with vars := object.vars ++ vars }
  := of_symbol Var.name _ Object.vars (fun object vars => { object with vars }) (fun _ => rfl)
    (fun _ _ => rfl) (fun _ _ _ => rfl) (fun _ _ => rfl) (fun _ _ => rfl) fun _ _ _ => rfl

theorem sub :
  Declares Declare.sub (fun sub => nameKey sub.name.name)
    fun object subs => { object with subs := object.subs ++ subs }
  := of_symbol SubObject.name _ Object.subs (fun object subs => { object with subs }) (fun _ => rfl)
    (fun _ _ => rfl) (fun _ _ _ => rfl) (fun _ _ => rfl) (fun _ _ => rfl) fun _ _ _ => rfl

theorem method :
  Declares Declare.method (fun method => nameKey method.name.name)
    fun object methods => { object with methods := object.methods ++ methods }
  := of_symbol Method.name _ Object.methods (fun object methods => { object with methods })
    (fun _ => rfl) (fun _ _ => rfl) (fun _ _ _ => rfl) (fun _ _ => rfl) (fun _ _ => rfl)
    fun _ _ _ => rfl

variable {add : α → Declare Unit} {key : α → String} {gather : Object → List α → Object}
  (h : Declares add key gather)

include h

/-- Items that are declared add their keys, and what `gather` says. -/
theorem forM_spec {items : List α} {object object' : Object}
    (hitems : object.declare (items.forM add) = .ok object') :
  object'.keys = object.keys ++ items.map key ∧ object'.unnamed = (gather object items).unnamed
  := by
  induction items generalizing object with
  | nil =>
    cases hitems
    rw [h.nil, List.map_nil, List.append_nil]
    exact ⟨rfl, rfl⟩
  | cons item items ih =>
    rw [Object.declare_forM_cons] at hitems
    obtain ⟨named, hnamed, hrest⟩ := ok_of_bind hitems
    by_cases hkey : key item ∈ object.keys
    · obtain ⟨fault, hfault⟩ := h.taken object item hkey
      rw [hfault] at hnamed
      cases hnamed
    · obtain ⟨named', hnamed', hkeys, hgather⟩ := h.free object item hkey
      rw [hnamed'] at hnamed
      cases hnamed
      obtain ⟨hkeys', hunnamed⟩ := ih hrest
      rw [hkeys', hkeys, List.append_assoc, hunnamed, hgather]
      exact ⟨rfl, rfl⟩

/-- Items are declared exactly if their keys are free and distinct. -/
theorem forM_ok_iff {object : Object} (hobject : object.keys.Nodup) (items : List α) :
  (∃ object', object.declare (items.forM add) = .ok object')
    ↔ (object.keys ++ items.map key).Nodup
  := by
  induction items generalizing object with
  | nil =>
    rw [List.map_nil, List.append_nil]
    exact ⟨fun _ => hobject, fun _ => ⟨object, rfl⟩⟩
  | cons item items ih =>
    rw [Object.declare_forM_cons, List.map_cons, ← List.singleton_append, ← List.append_assoc]
    by_cases hkey : key item ∈ object.keys
    · obtain ⟨fault, hfault⟩ := h.taken object item hkey
      rw [hfault]
      constructor
      · rintro ⟨_, hok⟩
        cases hok
      · intro hnodup
        have hdisjoint := List.disjoint_of_nodup_append (List.Nodup.of_append_left hnodup)
        exact absurd List.mem_cons_self (hdisjoint hkey)
    · obtain ⟨named, hnamed, hkeys, _⟩ := h.free object item hkey
      have hdistinct : named.keys.Nodup := by
        rw [hkeys, ← List.concat_eq_append]
        apply hobject.concat hkey
      rw [hnamed, ← hkeys]
      apply ih hdistinct

end Declares

/-! ### Objects from source -/

/-- The names that a file declares, behind those of the built-in constants. -/
def SourceObject.declared (source : SourceObject) : List Ident :=
  Object.builtinCons.map (·.name) ++ source.constants.map (·.name) ++ source.vars.map (·.name)
    ++ source.objs.map (·.name) ++ source.methods.map (·.name)

/-- The keys of the names that a file declares. -/
def SourceObject.declaredKeys (source : SourceObject) : List String :=
  source.declared.map fun name => nameKey name.name

namespace Object

/-- The symbols of a file are declared one kind after another. -/
theorem ofSource_eq (source : SourceObject) :
  ofSource source
    = declare { file := FileName.normalize source.file, dat := source.dat }
        ((builtinCons ++ source.constants.map conOf).forM Declare.con)
      >>= fun withCons => withCons.declare ((source.vars.map varOf).forM Declare.var)
      >>= fun withVars => withVars.declare ((source.objs.map subOf).forM Declare.sub)
      >>= fun withSubs => withSubs.declare ((source.methods.map methodOf).forM Declare.method)
  := by
  rw [ofSource]
  simp only [declare_bind]

/-- What a file declares, names apart. -/
theorem ofSource_spec {source : SourceObject} {object : Object}
    (h : ofSource source = .ok object) :
  object.unnamed =
    { file := FileName.normalize source.file
      cons := builtinCons ++ source.constants.map conOf
      vars := source.vars.map varOf
      subs := source.objs.map subOf
      methods := source.methods.map methodOf
      dat := source.dat }
  := by
  rw [ofSource_eq] at h
  obtain ⟨withCons, hcons, h⟩ := ok_of_bind h
  obtain ⟨withVars, hvars, h⟩ := ok_of_bind h
  obtain ⟨withSubs, hsubs, hmethods⟩ := ok_of_bind h
  have hcons' : withCons.unnamed
      = { file := FileName.normalize source.file, dat := source.dat
          cons := builtinCons ++ source.constants.map conOf } := by
    rw [(Declares.con.forM_spec hcons).2]
    simp only [unnamed, List.nil_append]
  have hvars' : withVars.unnamed
      = { withCons.unnamed with vars := withCons.unnamed.vars ++ source.vars.map varOf } :=
    (Declares.var.forM_spec hvars).2
  have hsubs' : withSubs.unnamed
      = { withVars.unnamed with subs := withVars.unnamed.subs ++ source.objs.map subOf } :=
    (Declares.sub.forM_spec hsubs).2
  have hmethods' : object.unnamed = { withSubs.unnamed with
      methods := withSubs.unnamed.methods ++ source.methods.map methodOf } :=
    (Declares.method.forM_spec hmethods).2
  rw [hmethods', hsubs', hvars', hcons']
  simp only [List.nil_append]

/-- A file has an object exactly if the keys of its names are distinct. -/
theorem ofSource_ok_iff (source : SourceObject) :
  (∃ object, ofSource source = .ok object) ↔ source.declaredKeys.Nodup
  := by
  have hkeys : source.declaredKeys
      = (builtinCons ++ source.constants.map conOf).map (fun con => nameKey con.name.name)
        ++ (source.vars.map varOf).map (fun var => nameKey var.name.name)
        ++ (source.objs.map subOf).map (fun sub => nameKey sub.name.name)
        ++ (source.methods.map methodOf).map (fun method => nameKey method.name.name) := by
    simp only [SourceObject.declaredKeys, SourceObject.declared, List.map_append, List.map_map]
    rfl
  rw [hkeys]
  let start : Object := { file := FileName.normalize source.file, dat := source.dat }
  have hstart : start.keys.Nodup := List.nodup_nil
  constructor
  · rintro ⟨object, h⟩
    rw [ofSource_eq] at h
    obtain ⟨withCons, hcons, h⟩ := ok_of_bind h
    obtain ⟨withVars, hvars, h⟩ := ok_of_bind h
    obtain ⟨withSubs, hsubs, hmethods⟩ := ok_of_bind h
    have hcons' := (Declares.con.forM_ok_iff hstart _).mp ⟨_, hcons⟩
    rw [← (Declares.con.forM_spec hcons).1] at hcons'
    have hvars' := (Declares.var.forM_ok_iff hcons' _).mp ⟨_, hvars⟩
    rw [← (Declares.var.forM_spec hvars).1] at hvars'
    have hsubs' := (Declares.sub.forM_ok_iff hvars' _).mp ⟨_, hsubs⟩
    rw [← (Declares.sub.forM_spec hsubs).1] at hsubs'
    have hmethods' := (Declares.method.forM_ok_iff hsubs' _).mp ⟨_, hmethods⟩
    rwa [(Declares.sub.forM_spec hsubs).1, (Declares.var.forM_spec hvars).1,
      (Declares.con.forM_spec hcons).1] at hmethods'
  · intro hnodup
    have hupToSubs := List.Nodup.of_append_left hnodup
    have hupToVars := List.Nodup.of_append_left hupToSubs
    have hupToCons := List.Nodup.of_append_left hupToVars
    obtain ⟨withCons, hcons⟩ := (Declares.con.forM_ok_iff hstart
      (builtinCons ++ source.constants.map conOf)).mpr hupToCons
    have hconsKeys := (Declares.con.forM_spec hcons).1
    rw [show start.keys = [] from rfl, List.nil_append] at hconsKeys
    rw [← hconsKeys] at hnodup hupToSubs hupToVars hupToCons
    obtain ⟨withVars, hvars⟩ := (Declares.var.forM_ok_iff hupToCons _).mpr hupToVars
    rw [← (Declares.var.forM_spec hvars).1] at hnodup hupToSubs hupToVars
    obtain ⟨withSubs, hsubs⟩ := (Declares.sub.forM_ok_iff hupToVars _).mpr hupToSubs
    rw [← (Declares.sub.forM_spec hsubs).1] at hnodup hupToSubs
    obtain ⟨object, hmethods⟩ := (Declares.method.forM_ok_iff hupToSubs _).mpr hnodup
    use object
    rw [ofSource_eq, bind_of_ok hcons, bind_of_ok hvars, bind_of_ok hsubs, hmethods]

end Object

end SpinHub
