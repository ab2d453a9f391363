import Mathlib
import SpinHub.Dat.Section
import SpinHub.Proofs.KeyedBuilds

/-!
# DAT sections by their keys

The passes over a DAT section run in parallel on builds that are the same up to case. Labels are
declared and found under their keys, a local label under that of the latest label with its own, and
a CALL without a destination returns through a label that is found by its key as well.
-/

namespace SpinHub

/-! ### Entries -/

/-- Two spellings of an entry of a DAT section. -/
inductive DatEntry.Alike : DatEntry → DatEntry → Prop where
  | label {name name' : Ident} (alignment : UInt8) :
      name.keyed = name'.keyed → Alike (.label name alignment) (.label name' alignment)
  | org (pos : Pos) {origin origin' : Option Exp} :
      origin.map Exp.keyed = origin'.map Exp.keyed → Alike (.org pos origin) (.org pos origin')
  | orgx (pos : Pos) : Alike (.orgx pos) (.orgx pos)
  | instruction {i i' : Instruction} :
      i.keyed = i'.keyed → Alike (.instruction i) (.instruction i')
  | res (pos : Pos) {count count' : Option Exp} :
      count.map Exp.keyed = count'.map Exp.keyed → Alike (.res pos count) (.res pos count')
  | fit (pos : Pos) {limit limit' : Option Exp} :
      limit.map Exp.keyed = limit'.map Exp.keyed → Alike (.fit pos limit) (.fit pos limit')
  | file (pos : Pos) (bytes : Bytes) : Alike (.file pos bytes) (.file pos bytes)
  | data {d d' : DatData} : d.keyed = d'.keyed → Alike (.data d) (.data d')

/-- Entries with the same keys are alike, kind by kind. -/
theorem DatEntry.alike_of_keyed {entry entry' : DatEntry} (h : entry.keyed = entry'.keyed) :
  Alike entry entry'
  := by
  cases entry <;> cases entry' <;> simp only [keyed, reduceCtorEq, label.injEq, org.injEq,
    orgx.injEq, instruction.injEq, res.injEq, fit.injEq, file.injEq, data.injEq] at h
  case label.label =>
    obtain ⟨hname, rfl⟩ := h
    exact .label _ hname
  case org.org =>
    obtain ⟨rfl, horigin⟩ := h
    exact .org _ horigin
  case orgx.orgx pos _ =>
    subst h
    exact .orgx pos
  case instruction.instruction => exact .instruction h
  case res.res =>
    obtain ⟨rfl, hcount⟩ := h
    exact .res _ hcount
  case fit.fit =>
    obtain ⟨rfl, hlimit⟩ := h
    exact .fit _ hlimit
  case file.file pos bytes _ _ =>
    obtain ⟨rfl, rfl⟩ := h
    exact .file pos bytes
  case data.data => exact .data h

theorem DatEntry.forall₂_alike {entries entries' : List DatEntry}
    (h : entries.map DatEntry.keyed = entries'.map DatEntry.keyed) :
  List.Forall₂ Alike entries entries'
  := (forall₂_of_map_eq h).imp fun _ _ => alike_of_keyed

/-! ### Instructions -/

/-- The name that an expression is. -/
def Exp.nameOf? : Exp → Option String
  | .name _ n => some n
  | _ => none

/-- The name in an expression, by key. -/
theorem Exp.nameOf?_keyed (e : Exp) :
  e.keyed.nameOf? = e.nameOf?.map nameKey
  := by
  cases e with
  | register pos reg bits => cases bits <;> rfl
  | _ => rfl

namespace Instruction

/-- The destination of an instruction is the one it has, or the return label of a CALL. -/
theorem destination_eq (i : Instruction) :
  i.destination = i.dest.or ((i.source.bind Exp.nameOf?).bind fun label =>
    if nameKey i.mnemonic = "CALL" then some (.name i.pos (label ++ "_ret")) else none)
  := by
  rw [destination]
  cases i.dest with
  | some e => rfl
  | none =>
    cases i.source with
    | none => rfl
    | some e => cases e <;> rfl

variable {i i' : Instruction} (h : i.keyed = i'.keyed)

include h

theorem nameKey_mnemonic :
  nameKey i.mnemonic = nameKey i'.mnemonic
  := (congrArg Instruction.mnemonic h :)

/-- Whether an instruction jumps does not depend on spelling. -/
theorem jumpMnemonic?_alike :
  i.jumpMnemonic? = i'.jumpMnemonic?
  := by
  rw [jumpMnemonic?, jumpMnemonic?, nameKey_mnemonic h]

/-- Instructions that are the same up to case have destinations that are, also a return label. -/
theorem destination_alike :
  i.destination.map Exp.keyed = i'.destination.map Exp.keyed
  := by
  have hpos : i.pos = i'.pos := (congrArg Instruction.pos h :)
  have hdest : i.dest.map Exp.keyed = i'.dest.map Exp.keyed := (congrArg Instruction.dest h :)
  have hsource : i.source.map Exp.keyed = i'.source.map Exp.keyed :=
    (congrArg Instruction.source h :)
  have hlabel : (i.source.bind Exp.nameOf?).map nameKey
      = (i'.source.bind Exp.nameOf?).map nameKey := by
    have hkeyed := congrArg (·.bind Exp.nameOf?) hsource
    simpa only [Option.bind_map, Function.comp_def, Exp.nameOf?_keyed, Option.map_bind]
      using hkeyed
  rw [destination_eq, destination_eq, nameKey_mnemonic h, hpos, Option.map_or, Option.map_or, hdest]
  congr 1
  revert hlabel
  generalize i.source.bind Exp.nameOf? = label
  generalize i'.source.bind Exp.nameOf? = label'
  intro hlabel
  cases optionRel_of_map_eq hlabel with
  | none => rfl
  | some hname =>
    -- The label that CALL makes up keeps the spelling of its operand, so only the keys agree.
    rw [Option.bind_some, Option.bind_some]
    split_ifs
    · simp only [Option.map_some, Exp.keyed, nameKey_append, hname]
    · rfl

end Instruction

/-- An operand has one encoding in all spellings. -/
theorem registerField_alike {site site' : Site} (h : site.Alike site') (operand : Operand)
    {e e' : Option Exp} (he : e.map Exp.keyed = e'.map Exp.keyed) :
  Parallel Eq Eq (registerField site operand e) (registerField site' operand e')
  := by
  cases optionRel_of_map_eq he with
  | none => exact Parallel.pure rfl
  | some hexp =>
    rw [registerField, registerField, Exp.pos_of_keyed hexp]
    apply Parallel.bind (Site.evalInt_alike h hexp)
    rintro v _ rfl
    split_ifs
    · exact Parallel.pure rfl
    · exact Parallel.failAt _ rfl

/-- An instruction has one encoding in all spellings. -/
theorem Instruction.assemble_alike {site site' : Site} (h : site.Alike site') {i i' : Instruction}
    (hi : i.keyed = i'.keyed) :
  Parallel Eq Eq (i.assemble site) (i'.assemble site')
  := by
  have hsource : i.source.map Exp.keyed = i'.source.map Exp.keyed :=
    (congrArg Instruction.source hi :)
  have hword : i.word = i'.word := (congrArg Instruction.word hi :)
  rw [assemble, assemble, hword]
  apply Parallel.bind (registerField_alike h .destination (destination_alike hi))
  rintro dest _ rfl
  apply Parallel.bind (registerField_alike h .source hsource)
  rintro source _ rfl
  exact Parallel.pure rfl

/-! ### Labels -/

namespace Object

variable {object object' : Object} (h : object.keyed = object'.keyed)

include h

/-- A label becomes the latest one in all spellings, unless it is local. -/
theorem passLabel_alike {name name' : String} (hname : nameKey name = nameKey name') :
  (object.passLabel name).keyed = (object'.passLabel name').keyed
  := by
  rw [passLabel, passLabel, ← isLocalLabel_nameKey, hname, isLocalLabel_nameKey]
  split_ifs
  · exact h
  · exact (congrArg₂ (fun (o : Object) latestLabel => { o with latestLabel }) h hname :)

/-- A label is found in any spelling of its name. -/
theorem labelOf?_alike {name name' : String} (hname : nameKey name = nameKey name') :
  Option.Rel (fun label label' => label.keyed = label'.keyed) (object.labelOf? name)
    (object'.labelOf? name')
  := by
  have hlabels : object.labels.map Label.keyed = object'.labels.map Label.keyed :=
    (congrArg Object.labels h :)
  rw [labelOf?, labelOf?, key_alike h hname, find?_of_keyed h]
  rcases object'.find? (object'.key name') with _ | ⟨_ | index | _ | _ | _⟩
  · exact .none
  · exact .none
  · exact forall₂_getElem? (forall₂_of_map_eq hlabels) index
  all_goals exact .none

end Object

/-! ### Placing -/

namespace Step

/-- An evaluation at a cursor ends alike in builds that are the same up to case. -/
theorem evaluateAt_parallel {α : Type} {V : α → α → Prop} (id : ObjId) (cursor : Cursor)
    {x y : Site → Eval α}
    (hxy : ∀ site site', site.Alike site' → Parallel Eq V (x site) (y site')) :
  Parallel Build.Respelled V (evaluateAt id cursor x) (evaluateAt id cursor y)
  := by
  apply evaluateIn_parallel
  intro site site' h
  apply hxy
  exact (congrArg (fun (site : Site) => { site with here := some cursor.here }) h :)

/-- An operand has one value in all spellings, or the default. -/
theorem operandOr_parallel (id : ObjId) (cursor : Cursor) (default : Int) {e e' : Option Exp}
    (he : e.map Exp.keyed = e'.map Exp.keyed) :
  Parallel Build.Respelled Eq (operandOr id cursor default e) (operandOr id cursor default e')
  := evaluateAt_parallel id cursor fun _ _ h => Site.evalIntOr_alike h default he

theorem remark_ignoresCase (pass : Pass) (id : ObjId) (pos : Pos) (text : String) :
  IgnoresCase (remark pass id pos text)
  := by
  cases pass with
  | measure => exact warn_ignoresCase id pos text
  | write => exact Parallel.pure rfl

theorem remarkAfterRes_ignoresCase (pass : Pass) (id : ObjId) (cursor : Cursor) (pos : Pos)
    (text : String) :
  IgnoresCase (remarkAfterRes pass id cursor pos text)
  := by
  rw [remarkAfterRes]
  split_ifs
  · exact remark_ignoresCase pass id pos text
  · exact Parallel.pure rfl

/-- Data is repeated as often in all spellings. -/
theorem dataCount_parallel (id : ObjId) (cursor : Cursor) {d d' : DatData}
    (hd : d.keyed = d'.keyed) :
  Parallel Build.Respelled Eq (dataCount id cursor d) (dataCount id cursor d')
  := by
  have hcount : d.count.map Exp.keyed = d'.count.map Exp.keyed := (congrArg DatData.count hd :)
  have hpos : d.pos = d'.pos := (congrArg DatData.pos hd :)
  rw [dataCount, dataCount, hpos]
  apply Parallel.bind (operandOr_parallel id cursor 1 hcount)
  rintro count _ rfl
  split_ifs
  · exact Parallel.failAt _ rfl
  · exact Parallel.pure rfl

/-- Two spellings of an entry are placed alike. -/
theorem place_parallel (config : Config) (pass : Pass) (id : ObjId) (cursor : Cursor)
    {entry entry' : DatEntry} (h : entry.Alike entry') :
  Parallel Build.Respelled Eq (place config pass id cursor entry)
    (place config pass id cursor entry')
  := by
  cases h with
  | label alignment => exact Parallel.pure rfl
  | org pos horigin =>
    apply Parallel.bind (operandOr_parallel id _ 0 horigin)
    rintro origin _ rfl
    apply Parallel.bind (Parallel.liftM (SameOutcome.refl_eq _))
    rintro next _ rfl
    exact Parallel.pure rfl
  | orgx pos => exact Parallel.pure rfl
  | @instruction i i' hi =>
    have hpos : i.pos = i'.pos := (congrArg Instruction.pos hi :)
    have himmediate : i.immediate = i'.immediate := (congrArg Instruction.immediate hi :)
    rw [place, place, hpos, himmediate, Instruction.jumpMnemonic?_alike hi]
    refine Parallel.andThen (remarkAfterRes_ignoresCase pass id cursor _ _) ?_
    have hrest : IgnoresCase (do
        let next ← liftM (cursor.alignLong.advance i'.pos 4 config.datLimit)
        return { start := cursor.alignLong, next } : Step Placed) := by
      apply Parallel.bind (Parallel.liftM (SameOutcome.refl_eq _))
      rintro next _ rfl
      exact Parallel.pure rfl
    cases i'.jumpMnemonic? with
    | none => exact hrest
    | some mnemonic =>
      cases i'.immediate with
      | true => exact hrest
      | false => exact (remark_ignoresCase pass id _ _).andThen hrest
  | res pos hcount =>
    apply Parallel.bind (operandOr_parallel id _ 1 hcount)
    rintro count _ rfl
    apply Parallel.bind (Parallel.liftM (SameOutcome.refl_eq _))
    rintro next _ rfl
    exact Parallel.pure rfl
  | fit pos hlimit =>
    rw [place, place]
    split_ifs
    · exact Parallel.pure rfl
    · apply Parallel.bind (operandOr_parallel id cursor _ hlimit)
      rintro limit _ rfl
      dsimp only
      split_ifs
      · exact Parallel.failAt _ rfl
      · exact Parallel.pure rfl
  | file pos bytes =>
    refine Parallel.andThen (remarkAfterRes_ignoresCase pass id cursor _ _) ?_
    apply Parallel.bind (Parallel.liftM (SameOutcome.refl_eq _))
    rintro next _ rfl
    exact Parallel.pure rfl
  | @data d d' hd =>
    have hpos : d.pos = d'.pos := (congrArg DatData.pos hd :)
    have halignment : d.alignment = d'.alignment := (congrArg DatData.alignment hd :)
    have hsize : d.size = d'.size := (congrArg DatData.size hd :)
    rw [place, place, hpos, halignment, hsize]
    split_ifs
    · exact Parallel.failAt _ rfl
    · refine Parallel.andThen (remarkAfterRes_ignoresCase pass id cursor _ _) ?_
      apply Parallel.bind (dataCount_parallel id _ hd)
      rintro count _ rfl
      apply Parallel.bind (Parallel.liftM (SameOutcome.refl_eq _))
      rintro next _ rfl
      exact Parallel.pure rfl
    · exact Parallel.failAt _ rfl

/-! ### Measuring -/

/-- A label is declared in all spellings of its name, or its key is taken in all. -/
theorem declareLabel_parallel (id : ObjId) (start : Cursor) {name name' : Ident}
    (hname : name.keyed = name'.keyed) :
  Parallel Build.Respelled Eq (declareLabel id start name) (declareLabel id start name')
  := by
  have hkey : nameKey name.name = nameKey name'.name := (congrArg Ident.name hname :)
  have hlabel : (start.label name).keyed = (start.label name').keyed :=
    (congrArg start.label hname :)
  apply Parallel.bind (object_parallel id)
  intro object object' hobject
  rw [Object.key_alike hobject hkey]
  apply Parallel.andThen (declare_parallel id (Declare.label_parallel _ hlabel))
  apply modifyObject_parallel
  intro _ _ hdeclared
  exact Object.passLabel_alike hdeclared hkey

/-- Entries that are alike are measured in parallel, from one cursor on. -/
theorem measureFrom_parallel (config : Config) (id : ObjId) {entries entries' : List DatEntry}
    (h : List.Forall₂ DatEntry.Alike entries entries') (cursor : Cursor) :
  Parallel Build.Respelled Eq (measureFrom config id cursor entries)
    (measureFrom config id cursor entries')
  := by
  induction h generalizing cursor with
  | nil => exact Parallel.pure rfl
  | cons hentry _ ih =>
    apply Parallel.bind (place_parallel config .measure id cursor hentry)
    rintro placed _ rfl
    cases hentry with
    | label alignment hname =>
      exact (declareLabel_parallel id placed.start hname).andThen (ih placed.next)
    | org | orgx | instruction | res | fit | file | data => exact ih placed.next

/-! ### Writing -/

/-- A label is found where it was declared, in all spellings of its name. -/
theorem checkLabel_parallel (id : ObjId) (start : Cursor) {name name' : Ident}
    (hname : name.keyed = name'.keyed) :
  Parallel Build.Respelled Eq (checkLabel id start name) (checkLabel id start name')
  := by
  have hkey : nameKey name.name = nameKey name'.name := (congrArg Ident.name hname :)
  have hpos : name.pos = name'.pos := (congrArg Ident.pos hname :)
  apply Parallel.bind (object_parallel id)
  intro object object' hobject
  rw [hpos]
  have hrel := Object.labelOf?_alike hobject hkey
  revert hrel
  generalize object.labelOf? name.name = found
  generalize object'.labelOf? name'.name = found'
  rintro (@⟨label, label', hlabel⟩ | _)
  · have hoffset : label.offset = label'.offset := (congrArg Label.offset hlabel :)
    have hcog : label.cog = label'.cog := (congrArg Label.cog hlabel :)
    dsimp only
    rw [hoffset, hcog]
    split_ifs
    · exact Parallel.failAt _ rfl
    · apply modifyObject_parallel
      intro o o' ho
      exact Object.passLabel_alike ho hkey
  · exact Parallel.failAt _ rfl

/-- Data has the same bytes in all spellings. -/
theorem dataBytes_parallel (id : ObjId) (placed : Placed) {d d' : DatData}
    (hd : d.keyed = d'.keyed) :
  Parallel Build.Respelled Eq (dataBytes id placed d) (dataBytes id placed d')
  := by
  have hvalue : d.value.keyed = d'.value.keyed := (congrArg DatData.value hd :)
  have hsize : d.size = d'.size := (congrArg DatData.size hd :)
  have htruncates : d.truncates = d'.truncates := (congrArg DatData.truncates hd :)
  have hunit : d.unit = d'.unit := (congrArg DatData.unit hd :)
  have heval := evaluateAt_parallel id placed.start fun _ _ h => Site.eval_alike h hvalue
  apply Parallel.bind heval
  rintro value _ rfl
  rw [Exp.pos_of_keyed hvalue, hsize, htruncates, hunit]
  split_ifs
  · exact Parallel.failAt _ rfl
  · exact (warn_ignoresCase id _ _).andThen (Parallel.pure rfl)
  · exact Parallel.pure rfl

/-- Entries that are alike have the same bytes. -/
theorem payload_parallel (id : ObjId) (placed : Placed) {entry entry' : DatEntry}
    (h : entry.Alike entry') :
  Parallel Build.Respelled Eq (payload id placed entry) (payload id placed entry')
  := by
  cases h with
  | label alignment hname =>
    exact (checkLabel_parallel id placed.start hname).andThen (Parallel.pure rfl)
  | instruction hi =>
    have hword := evaluateAt_parallel id placed.start fun _ _ h => Instruction.assemble_alike h hi
    apply Parallel.bind hword
    rintro word _ rfl
    exact Parallel.pure rfl
  | file pos bytes => exact Parallel.pure rfl
  | data hd => exact dataBytes_parallel id placed hd
  | org | orgx | res | fit => exact Parallel.pure rfl

/-- Entries that are alike are written in parallel, over one block. -/
theorem writeFrom_parallel (config : Config) (id : ObjId) (base : Nat)
    {entries entries' : List DatEntry} (h : List.Forall₂ DatEntry.Alike entries entries')
    (cursor : Cursor) (block : Bytes) :
  Parallel Build.Respelled Eq (writeFrom config id base cursor block entries)
    (writeFrom config id base cursor block entries')
  := by
  induction h generalizing cursor block with
  | nil => exact Parallel.pure rfl
  | cons hentry _ ih =>
    apply Parallel.bind (place_parallel config .write id cursor hentry)
    rintro placed _ rfl
    apply Parallel.bind (payload_parallel id placed hentry)
    rintro bytes _ rfl
    exact ih placed.next _

/-! ### The passes -/

theorem clearLatest_ignoresCase (id : ObjId) :
  IgnoresCase (clearLatest id)
  := by
  apply modifyObject_parallel
  intro object object' h
  exact (congrArg (fun (o : Object) => { o with latestLabel := nameKey "" }) h :)

/-- Measuring a DAT section ignores case. -/
theorem measureDat_ignoresCase (config : Config) (id : ObjId) :
  IgnoresCase (measureDat config id)
  := by
  apply inObject_parallel
  refine Parallel.andThen (clearLatest_ignoresCase id) ?_
  apply Parallel.bind (object_parallel id)
  intro object object' hobject
  have hheader : object.headerSize = object'.headerSize := (congrArg Object.headerSize hobject :)
  have hdat : object.dat.map DatEntry.keyed = object'.dat.map DatEntry.keyed :=
    (congrArg Object.dat hobject :)
  rw [hheader]
  apply Parallel.bind (measureFrom_parallel config id (DatEntry.forall₂_alike hdat) _)
  rintro cursor _ rfl
  exact modifyObject_ignoresCase id fun _ => rfl

/-- Writing a DAT section ignores case. -/
theorem writeDat_ignoresCase (config : Config) (id : ObjId) :
  IgnoresCase (writeDat config id)
  := by
  apply inObject_parallel
  refine Parallel.andThen (clearLatest_ignoresCase id) ?_
  apply Parallel.bind (object_parallel id)
  intro object object' hobject
  have hheader : object.headerSize = object'.headerSize := (congrArg Object.headerSize hobject :)
  have hbytes : object.datBytes = object'.datBytes := (congrArg Object.datBytes hobject :)
  have hdat : object.dat.map DatEntry.keyed = object'.dat.map DatEntry.keyed :=
    (congrArg Object.dat hobject :)
  rw [hheader, hbytes]
  apply Parallel.bind (writeFrom_parallel config id _ (DatEntry.forall₂_alike hdat) _ _)
  rintro bytes _ rfl
  exact modifyObject_ignoresCase id fun _ => rfl

end Step

end SpinHub
