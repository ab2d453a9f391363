import Mathlib
import SpinHub.Layout.Variables
import SpinHub.Proofs.DatPlacing
import SpinHub.Proofs.EvaluationFaults

/-!
# The passes over a DAT section agree

The measuring pass sees only the labels before an entry, and the writing pass sees them all and
finds constants evaluated in between. Both walk alike: at every entry they have the same cursor,
the labels stand where they were declared, and what is written has been given room.
-/

namespace SpinHub

namespace Step

/-! ### One entry in both passes -/

/-- Measures one entry and returns the cursor behind it. -/
def measureEntry (config : Config) (id : ObjId) (cursor : Cursor) (entry : DatEntry) :
    Step Cursor := do
  let placed ← place config .measure id cursor entry
  match entry with
  | .label name _ => declareLabel id placed.start name
  | _ => pure ()
  return placed.next

theorem measureFrom_cons (config : Config) (id : ObjId) (cursor : Cursor) (entry : DatEntry)
    (rest : List DatEntry) :
  measureFrom config id cursor (entry :: rest)
    = measureEntry config id cursor entry >>= fun next => measureFrom config id next rest
  := by
  cases entry <;> simp only [measureFrom, measureEntry, bind_assoc, pure_bind]

theorem measureFrom_append (config : Config) (id : ObjId) (cursor : Cursor)
    (front back : List DatEntry) :
  measureFrom config id cursor (front ++ back)
    = measureFrom config id cursor front >>= fun next => measureFrom config id next back
  := by
  induction front generalizing cursor with
  | nil => rfl
  | cons entry front ih =>
    rw [List.cons_append, measureFrom_cons, measureFrom_cons, bind_assoc]
    simp only [ih]

/-- Measuring an entry places it; a label is declared, and nothing else changes the objects. -/
theorem yields_measureEntry {config : Config} {id : ObjId} {cursor next : Cursor}
    {entry : DatEntry} {s s' : Build} (h : Yields (measureEntry config id cursor entry) s next s') :
  ∃ placed m, Yields (place config .measure id cursor entry) s placed m ∧ placed.next = next
    ∧ ((∃ name alignment u, entry = .label name alignment
        ∧ Yields (declareLabel id placed.start name) m u s')
      ∨ (∀ name alignment, entry ≠ .label name alignment) ∧ s' = m)
  := by
  obtain ⟨placed, m, hplaced, h⟩ := yields_bind.mp h
  use placed, m, hplaced
  cases entry with
  | label name alignment =>
    obtain ⟨u, m', hlabel, h⟩ := yields_bind.mp h
    obtain ⟨rfl, rfl⟩ := yields_pure.mp h
    exact ⟨rfl, .inl ⟨name, alignment, u, rfl, hlabel⟩⟩
  | _ =>
    obtain ⟨rfl, rfl⟩ := yields_pure.mp h
    exact ⟨rfl, .inr ⟨nofun, rfl⟩⟩

theorem measureEntry_growsAt {config : Config} {id : ObjId} {cursor next : Cursor}
    {entry : DatEntry} {s s' : Build} (h : Yields (measureEntry config id cursor entry) s next s') :
  s.GrowsAt id s' ∧ cursor.offset ≤ next.offset
  := by
  obtain ⟨placed, m, hplaced, rfl, hlabel⟩ := yields_measureEntry h
  obtain ⟨hobjects, hmemo, _⟩ := place_replays _ _ _ _ _ _ _ hplaced
  obtain ⟨hstart, length, _, hnext⟩ := place_room hplaced
  refine ⟨(Build.GrowsAt.of_objects hobjects hmemo).trans ?_, by omega⟩
  rcases hlabel with ⟨name, alignment, u, rfl, hdeclare⟩ | ⟨_, rfl⟩
  · apply declareLabel_growsAt hdeclare
  · apply Build.GrowsAt.refl

theorem measureFrom_growsAt {config : Config} {id : ObjId} {cursor next : Cursor}
    {entries : List DatEntry} {s s' : Build}
    (h : Yields (measureFrom config id cursor entries) s next s') :
  s.GrowsAt id s' ∧ cursor.offset ≤ next.offset
  := by
  induction entries generalizing cursor s with
  | nil =>
    obtain ⟨rfl, rfl⟩ := yields_pure.mp h
    exact ⟨Build.GrowsAt.refl _, le_rfl⟩
  | cons entry rest ih =>
    rw [measureFrom_cons] at h
    obtain ⟨middle, m, hentry, hrest⟩ := yields_bind.mp h
    obtain ⟨hgrows, hle⟩ := measureEntry_growsAt hentry
    obtain ⟨hgrows', hle'⟩ := ih hrest
    exact ⟨hgrows.trans hgrows', hle.trans hle'⟩

theorem registerField_repeats {site site' : Site} (h : site.Grows site') (operand : Operand)
    (e : Option Exp) :
  Repeats (registerField site operand e) (registerField site' operand e)
  := by
  cases e with
  | none => apply Repeats.pure
  | some e =>
    apply Repeats.bind (Site.evalInt_repeats h e)
    intro v
    split_ifs
    · apply Repeats.pure
    · apply Repeats.failAt

theorem assemble_repeats {site site' : Site} (h : site.Grows site') (instruction : Instruction) :
  Repeats (instruction.assemble site) (instruction.assemble site')
  := by
  apply Repeats.bind (registerField_repeats h _ _)
  intro dest
  apply Repeats.bind (registerField_repeats h _ _)
  intro source
  apply Repeats.pure

/-- Writing a payload changes the latest label at most. -/
theorem payload_frame {id : ObjId} {placed : Placed} {entry : DatEntry} {t t' : Build}
    {bytes : Bytes} (h : Yields (payload id placed entry) t bytes t') :
  t'.objects = t.objects.modify id (·.behind entry) ∧ Memo.Grows t.memo t'.memo
  := by
  have unchanged {t' : Build} (h : t'.objects = t.objects)
      (hentry : ∀ object : Object, object.behind entry = object) :
      t'.objects = t.objects.modify id (·.behind entry) := by
    rw [h, funext hentry]
    apply (List.modify_id _ _).symm
  cases entry with
  | label name alignment =>
    obtain ⟨u, m, hcheck, h⟩ := yields_bind.mp h
    obtain ⟨rfl, rfl⟩ := yields_pure.mp h
    replace hcheck := yields_object_bind.mp hcheck
    cases hlabel : (t.object id).labelOf? name.name with
    | none =>
      rw [hlabel] at hcheck
      cases yields_failAt hcheck
    | some label =>
      rw [hlabel] at hcheck
      dsimp only at hcheck
      split_ifs at hcheck
      · cases yields_failAt hcheck
      · obtain rfl := yields_modifyObject.mp hcheck
        exact ⟨rfl, Memo.Grows.refl _⟩
  | instruction instruction =>
    obtain ⟨word, m, hword, h⟩ := yields_bind.mp h
    obtain ⟨rfl, rfl⟩ := yields_pure.mp h
    obtain ⟨hobjects, hmemo, _⟩ := evaluateAt_replays id placed.start
      (fun _ _ hsite => assemble_repeats hsite instruction) _ _ _ hword
    exact ⟨unchanged hobjects fun _ => rfl, hmemo⟩
  | data item =>
    obtain ⟨value, m, hvalue, _, hobjects, hmemo⟩ := yields_dataBytes h
    obtain ⟨hobjects', hmemo', _⟩ := evaluateAt_replays id placed.start
      (fun _ _ hsite => Site.eval_repeats hsite item.value) _ _ _ hvalue
    rw [hmemo]
    exact ⟨unchanged (hobjects.trans hobjects') fun _ => rfl, hmemo'⟩
  | _ =>
    obtain ⟨_, rfl⟩ := yields_pure.mp h
    exact ⟨unchanged rfl fun _ => rfl, Memo.Grows.refl _⟩

end Step

/-- The writing pass in `t` stands where the measuring pass stood in `s`. Of what was known in
`later`, when the writing pass began, it has changed the latest label, and constants may have been
evaluated. -/
structure Build.Follows (id : ObjId) (later s t : Build) : Prop where
  objects : t.objects = later.objects.modify id fun object =>
    { object with latestLabel := (s.object id).latestLabel }
  memo : Memo.Grows later.memo t.memo

namespace Build.Follows

variable {id : ObjId} {later s t : Build}

theorem object_self (h : Follows id later s t) (hid : id < later.objects.length) :
  t.object id = { later.object id with latestLabel := (s.object id).latestLabel }
  := by
  rw [Build.object, h.objects]
  apply object_modifyObject_self _ hid

theorem object_ne (h : Follows id later s t) {other : ObjId} (hother : id ≠ other) :
  t.object other = later.object other
  := by
  rw [Build.object, h.objects]
  apply object_modifyObject_ne _ hother

theorem objectsGrow (h : Follows id later s t) (hid : id < later.objects.length)
    (hlater : s.GrowsAt id later) :
  ObjectsGrow s.objects t.objects
  := by
  constructor
  · intro other
    apply (hlater.objects other).trans
    by_cases hother : id = other
    · subst hother
      apply cast (congrArg _ (h.object_self hid).symm)
      apply Object.grows_latest
    · apply cast (congrArg _ (h.object_ne hother).symm)
      apply Object.Grows.refl
  · intro other
    by_cases hother : id = other
    · subst hother
      apply congrArg Object.latestLabel (h.object_self hid)
    · apply (congrArg Object.latestLabel (h.object_ne hother)).trans
      apply hlater.latest other (Ne.symm hother)

end Build.Follows

theorem Object.behind_of_ne {object : Object} {entry : DatEntry}
    (h : ∀ name alignment, entry ≠ .label name alignment) :
  object.behind entry = object
  := by
  cases entry with
  | label name alignment => cases h name alignment rfl
  | _ => rfl

theorem Object.behind_latest (object other : Object) (entry : DatEntry) :
  Object.behind { object with latestLabel := other.latestLabel } entry
    = { object with latestLabel := (other.behind entry).latestLabel }
  := by
  cases entry with
  | label name alignment =>
    unfold Object.behind Object.passLabel
    dsimp only
    split_ifs <;> rfl
  | _ => rfl

namespace Step

/-- The step of the argument: where the writing pass stands as the measuring pass stood, the next
entry is placed alike, its label stands where it was declared, and the passes stand alike
behind it. -/
theorem entry_follows {config : Config} {id : ObjId} {cursor next : Cursor} {entry : DatEntry}
    {later s s' t : Build} (hid : id < later.objects.length)
    (hmeasure : Yields (measureEntry config id cursor entry) s next s')
    (hlater : s'.GrowsAt id later) (h : Build.Follows id later s t) :
  ∃ placed m, Yields (place config .measure id cursor entry) s placed m
    ∧ Yields (place config .write id cursor entry) t placed t ∧ placed.next = next
    ∧ (∀ name alignment, entry = .label name alignment →
        ∃ t', Yields (checkLabel id placed.start name) t () t')
    ∧ ∀ bytes t', Yields (payload id placed entry) t bytes t' → Build.Follows id later s' t'
  := by
  obtain ⟨placed, m, hplaced, rfl, hlabel⟩ := yields_measureEntry hmeasure
  obtain ⟨hobjects, hmemo, hagain⟩ := place_replays _ _ _ _ _ _ _ hplaced
  have hm : s.GrowsAt id m := Build.GrowsAt.of_objects hobjects hmemo
  have hobject : m.object id = s.object id := by
    rw [Build.object, hobjects, Build.object]
  have hs' : m.GrowsAt id s' := by
    rcases hlabel with ⟨name, alignment, u, rfl, hdeclare⟩ | ⟨_, rfl⟩
    · apply declareLabel_growsAt hdeclare
    · apply Build.GrowsAt.refl
  have hgrow : ObjectsGrow s.objects t.objects :=
    h.objectsGrow hid ((hm.trans hs').trans hlater)
  have hwrite := hagain t hgrow ((hs'.trans hlater).memo.trans h.memo)
  -- the label that is the latest behind the entry, and the check of it
  have hbehind : (s'.object id).latestLabel = ((s.object id).behind entry).latestLabel
      ∧ ∀ name alignment, entry = .label name alignment →
        ∃ t', Yields (checkLabel id placed.start name) t () t' := by
    rcases hlabel with ⟨name, alignment, u, rfl, hdeclare⟩ | ⟨hentry, rfl⟩
    · have hidm : id < m.objects.length := by
        rwa [← hs'.length, ← hlater.length]
      have hknown : (s'.object id).Grows (t.object id) := by
        rw [h.object_self hid]
        apply (hlater.objects id).trans (Object.grows_latest _ _)
      have hlatest : (t.object id).latestLabel = (m.object id).latestLabel := by
        rw [h.object_self hid, hobject]
      obtain ⟨hcheck, hpass⟩ := checkLabel_of_declareLabel hidm hdeclare hknown hlatest
      rw [hobject] at hpass
      refine ⟨hpass, ?_⟩
      rintro _ _ ⟨rfl, rfl⟩
      exact ⟨_, hcheck⟩
    · rw [Object.behind_of_ne hentry, hobject]
      refine ⟨rfl, ?_⟩
      intro name alignment hlabel
      cases hentry name alignment hlabel
  refine ⟨placed, m, hplaced, hwrite, rfl, hbehind.2, ?_⟩
  intro bytes t' hpayload
  obtain ⟨hobjects', hmemo'⟩ := payload_frame hpayload
  constructor
  · rw [hobjects', h.objects, List.modify_modify_eq, hbehind.1]
    congr 1
    funext object
    apply Object.behind_latest
  · apply h.memo.trans hmemo'

/-! ### Whole passes -/

/-- Writes entries like `writeFrom`, and also returns the cursor behind them. -/
def writeThrough (config : Config) (id : ObjId) (base : Nat) :
    Cursor → Bytes → List DatEntry → Step (Cursor × Bytes)
  | cursor, block, [] => return (cursor, block)
  | cursor, block, entry :: rest => do
    let placed ← place config .write id cursor entry
    let bytes ← payload id placed entry
    let block := block.overwrite (placed.start.offset - base) bytes
    writeThrough config id base placed.next block rest

theorem writeFrom_eq (config : Config) (id : ObjId) (base : Nat) (cursor : Cursor) (block : Bytes)
    (entries : List DatEntry) :
  writeFrom config id base cursor block entries
    = Prod.snd <$> writeThrough config id base cursor block entries
  := by
  induction entries generalizing cursor block with
  | nil => rfl
  | cons entry rest ih => simp only [writeFrom, writeThrough, ih, map_bind]

/-- What is written of an entry stands inside a block that reaches as far as the entry. -/
theorem payload_inside {config : Config} {pass : Pass} {id : ObjId} {base : Nat} {cursor : Cursor}
    {entry : DatEntry} {block bytes : Bytes} {placed : Placed} {s s' t t' : Build}
    (hplaced : Yields (place config pass id cursor entry) s placed s')
    (hpayload : Yields (payload id placed entry) t bytes t') (hbase : base ≤ cursor.offset)
    (hnext : placed.next.offset ≤ base + block.length) :
  base ≤ placed.start.offset ∧ placed.start.offset - base + bytes.length ≤ block.length
  := by
  obtain ⟨hstart, length, htakes, hlength⟩ := place_room hplaced
  have := payload_length htakes hlength hpayload
  omega

/-- The run of the argument: both passes over the same entries stand alike behind them, and the
block has kept its length. -/
theorem writeThrough_follows {config : Config} {id : ObjId} {base : Nat}
    {cursor next next' : Cursor} {entries : List DatEntry} {block block' : Bytes}
    {later s s' t t' : Build}
    (hid : id < later.objects.length)
    (hmeasure : Yields (measureFrom config id cursor entries) s next s')
    (hlater : s'.GrowsAt id later) (h : Build.Follows id later s t)
    (hbase : base ≤ cursor.offset) (hroom : next.offset ≤ base + block.length)
    (hwrite : Yields (writeThrough config id base cursor block entries) t (next', block') t') :
  next' = next ∧ Build.Follows id later s' t' ∧ block'.length = block.length
  := by
  induction entries generalizing cursor block s t with
  | nil =>
    obtain ⟨rfl, rfl⟩ := yields_pure.mp hmeasure
    obtain ⟨heq, rfl⟩ := yields_pure.mp hwrite
    cases heq
    exact ⟨rfl, h, rfl⟩
  | cons entry rest ih =>
    rw [measureFrom_cons] at hmeasure
    obtain ⟨middle, m, hentry, hrest⟩ := yields_bind.mp hmeasure
    obtain ⟨placed', t₁, hplaced', hwrite₁⟩ := yields_bind.mp hwrite
    obtain ⟨bytes, t₂, hpayload, hwrite₂⟩ := yields_bind.mp hwrite₁
    obtain ⟨hgrows, hend⟩ := measureFrom_growsAt hrest
    obtain ⟨placed, _, hplaced, hagain, rfl, _, hfollows⟩ :=
      entry_follows hid hentry (hgrows.trans hlater) h
    obtain ⟨rfl, rfl⟩ := Yields.unique hagain hplaced'
    obtain ⟨hstart, length, _, hnext⟩ := place_room hplaced
    have hinside : placed.start.offset - base + bytes.length ≤ block.length :=
      (payload_inside hplaced hpayload hbase (by omega)).2
    have hkeep := Bytes.length_overwrite block bytes _ hinside
    rw [← hkeep]
    apply ih hrest (hfollows bytes t₂ hpayload) (by omega) (by omega) hwrite₂

/-- A failure of the writing pass comes from an entry that it reached, in placing it or in its
payload. -/
theorem fails_writeThrough {config : Config} {id : ObjId} {base : Nat} {cursor : Cursor}
    {entries : List DatEntry} {block : Bytes} {t t' : Build} {fault : Fault}
    (h : Fails (writeThrough config id base cursor block entries) t fault t') :
  ∃ k entry at_k block_k m, entries[k]? = some entry
    ∧ Yields (writeThrough config id base cursor block (entries.take k)) t (at_k, block_k) m
    ∧ (Fails (place config .write id at_k entry) m fault t'
      ∨ ∃ placed m', Yields (place config .write id at_k entry) m placed m'
        ∧ Fails (payload id placed entry) m' fault t')
  := by
  induction entries generalizing cursor block t with
  | nil => cases h
  | cons entry rest ih =>
    rcases fails_bind.mp h with hplace | ⟨placed, m, hplaced, h⟩
    · refine ⟨0, entry, cursor, block, t, rfl, ?_, .inl hplace⟩
      apply yields_pure.mpr ⟨rfl, rfl⟩
    · rcases fails_bind.mp h with hpayload | ⟨bytes, m', hpayload, h⟩
      · refine ⟨0, entry, cursor, block, t, rfl, ?_, .inr ⟨placed, m, hplaced, hpayload⟩⟩
        apply yields_pure.mpr ⟨rfl, rfl⟩
      · obtain ⟨k, entry', at_k, block_k, m'', hentry, hreach, hfail⟩ := ih h
        refine ⟨k + 1, entry', at_k, block_k, m'', hentry, ?_, hfail⟩
        rw [List.take_succ_cons, writeThrough]
        apply yields_bind.mpr
        use placed, m, hplaced
        apply yields_bind.mpr
        use bytes, m', hpayload, hreach

/-- The payload of an entry that is not a label fails only in an instruction or in data, and never
because of its place. -/
theorem payload_faults {id : ObjId} {placed : Placed} {entry : DatEntry} {t t' : Build}
    {fault : Fault} (hentry : ∀ name alignment, entry ≠ .label name alignment)
    (h : Fails (payload id placed entry) t fault t') :
  ((∃ instruction, entry = .instruction instruction) ∨ ∃ item, entry = .data item)
    ∧ ¬ fault.cause.IsPlacing ∧ t'.objects = t.objects
  := by
  cases entry with
  | label name alignment => cases hentry name alignment rfl
  | instruction instruction =>
    refine ⟨.inl ⟨instruction, rfl⟩, ?_⟩
    rcases fails_bind.mp h with hword | ⟨_, _, _, hpure⟩
    · obtain ⟨memo, hfail, rfl⟩ := fails_evaluateIn.mp hword
      exact ⟨instruction.assemble_faults _ _ _ _ hfail, rfl⟩
    · cases hpure
  | data item =>
    refine ⟨.inr ⟨item, rfl⟩, ?_⟩
    rcases fails_bind.mp h with hvalue | ⟨value, m, hvalue, hfail⟩
    · obtain ⟨memo, hfail, rfl⟩ := fails_evaluateIn.mp hvalue
      exact ⟨(Site.eval_faults _ _ _ _ _ hfail).not_isPlacing, rfl⟩
    · obtain ⟨memo, _, rfl⟩ := yields_evaluateIn.mp hvalue
      split_ifs at hfail
      · obtain ⟨rfl, rfl⟩ := fails_failAt.mp hfail
        exact ⟨fun h => h, rfl⟩
      · cases hfail
      · cases hfail
  | _ => cases h

/-! ### The passes -/

end Step

/-- A build in which an object has no latest label. -/
def Build.clearLatest (build : Build) (id : ObjId) : Build :=
  build.modifyObject id fun object => { object with latestLabel := "" }

theorem Build.object_clearLatest (build : Build) (id : ObjId) :
  (build.clearLatest id).object id = { build.object id with latestLabel := "" }
  := by
  by_cases hid : id < build.objects.length
  · apply object_modifyObject_self _ hid
  · rw [clearLatest, modifyObject_of_le _ (Nat.le_of_not_lt hid), Build.object, objectAt,
      List.getElem?_eq_none (Nat.le_of_not_lt hid)]
    rfl

namespace Step

/-- The measuring pass over the first `k` entries of an object; returns the cursor behind them. -/
def measureTo (config : Config) (id : ObjId) (k : Nat) : Step Cursor := do
  clearLatest id
  let object ← object id
  measureFrom config id (.start object.headerSize) (object.dat.take k)

/-- The writing pass over the first `k` entries of an object; returns the cursor behind them and
the section as far as it is written. -/
def writeTo (config : Config) (id : ObjId) (k : Nat) : Step (Cursor × Bytes) := do
  clearLatest id
  let object ← object id
  let blank := List.replicate object.datBytes.length 0
  writeThrough config id object.headerSize (.start object.headerSize) blank (object.dat.take k)

theorem yields_measureTo {config : Config} {id : ObjId} {k : Nat} {cursor : Cursor} {b s : Build} :
  Yields (measureTo config id k) b cursor s
    ↔ Yields (measureFrom config id (.start (b.object id).headerSize) ((b.object id).dat.take k))
        (b.clearLatest id) cursor s
  := by
  apply yields_modify_bind.trans
  apply yields_object_bind.trans
  rw [← Build.clearLatest, Build.object_clearLatest]

theorem yields_writeTo {config : Config} {id : ObjId} {k : Nat} {cursor : Cursor} {block : Bytes}
    {b t : Build} :
  Yields (writeTo config id k) b (cursor, block) t
    ↔ Yields (writeThrough config id (b.object id).headerSize (.start (b.object id).headerSize)
        (List.replicate (b.object id).datBytes.length 0) ((b.object id).dat.take k))
        (b.clearLatest id) (cursor, block) t
  := by
  apply yields_modify_bind.trans
  apply yields_object_bind.trans
  rw [← Build.clearLatest, Build.object_clearLatest]

/-- The measuring pass walks over all entries and makes room for what it has measured. -/
theorem yields_measureDat {config : Config} {id : ObjId} {b b' : Build} {u : Unit}
    (h : Yields (measureDat config id) b u b') :
  ∃ last s, Yields (measureTo config id (b.object id).dat.length) b last s ∧ s.GrowsAt id b'
    ∧ (b'.object id).labels = (s.object id).labels
    ∧ last.offset = (b'.object id).headerSize + (b'.object id).datBytes.length
  := by
  have hrun := yields_object_bind.mp (yields_modify_bind.mp (yields_inObject.mp h))
  obtain ⟨last, s, hmeasure, hmodify⟩ := yields_bind.mp hrun
  rw [← Build.clearLatest, Build.object_clearLatest] at hmeasure
  have hgrows : s.GrowsAt id b' := by
    rw [yields_modifyObject.mp hmodify]
    apply Build.GrowsAt.modifyObject
    exact ⟨List.prefix_rfl, rfl, List.prefix_rfl, rfl, rfl, rfl, rfl⟩
  use last, s
  refine ⟨?_, hgrows, ?_, ?_⟩
  · apply yields_measureTo.mpr
    rwa [List.take_length]
  · rw [yields_modifyObject.mp hmodify]
    apply Build.congr_modifyObject (p := Object.labels)
    rfl
  · obtain ⟨hs, hle⟩ := measureFrom_growsAt hmeasure
    have hheader : (b'.object id).headerSize = (b.object id).headerSize := by
      rw [(hs.trans hgrows).objects id |>.headerSize, Build.object_clearLatest]
    by_cases hid : id < s.objects.length
    · rw [yields_modifyObject.mp hmodify, Build.object_modifyObject_self _ hid] at hheader ⊢
      simp only [Cursor.start, List.length_replicate] at hle hheader ⊢
      omega
    · -- without the object there is no entry
      have hdefault : b.object id = default := by
        apply Build.object_of_le
        rw [← b.length_modifyObject id, ← Build.clearLatest, ← hs.length]
        apply Nat.le_of_not_lt hid
      rw [hdefault] at hmeasure
      obtain ⟨rfl, rfl⟩ := yields_pure.mp hmeasure
      rw [yields_modifyObject.mp hmodify, Build.modifyObject_of_le _ (Nat.le_of_not_lt hid),
        Build.object_of_le (Nat.le_of_not_lt hid)]
      rfl

/-- The writing pass walks over all entries and keeps what it has written. -/
theorem yields_writeDat {config : Config} {id : ObjId} {b b' : Build} {u : Unit}
    (h : Yields (writeDat config id) b u b') :
  ∃ cursor block s, Yields (writeTo config id (b.object id).dat.length) b (cursor, block) s
    ∧ b' = s.modifyObject id fun object => { object with datBytes := block }
  := by
  have hrun := yields_object_bind.mp (yields_modify_bind.mp (yields_inObject.mp h))
  obtain ⟨bytes, s, hwrite, hmodify⟩ := yields_bind.mp hrun
  rw [← Build.clearLatest, Build.object_clearLatest, writeFrom_eq] at hwrite
  obtain ⟨⟨cursor, _⟩, hwrite, rfl⟩ := yields_map.mp hwrite
  use cursor, bytes, s
  refine ⟨?_, yields_modifyObject.mp hmodify⟩
  apply yields_writeTo.mpr
  rw [List.take_length]
  exact hwrite

/-- A failure of the writing pass is a failure at one of its entries. -/
theorem fails_writeDat {config : Config} {id : ObjId} {b b' : Build} {fault : Fault}
    (h : Fails (writeDat config id) b fault b') :
  ∃ k entry cursor block t inner, (b.object id).dat[k]? = some entry
    ∧ Yields (writeTo config id k) b (cursor, block) t
    ∧ fault = inner.inFile (b.object id).file
    ∧ (Fails (place config .write id cursor entry) t inner b'
      ∨ ∃ placed t', Yields (place config .write id cursor entry) t placed t'
        ∧ Fails (payload id placed entry) t' inner b')
  := by
  obtain ⟨inner, hrun, rfl⟩ := fails_inObject.mp h
  replace hrun := fails_object_bind.mp (fails_modify_bind.mp hrun)
  rcases fails_bind.mp hrun with hwrite | ⟨_, _, _, hmodify⟩
  · rw [← Build.clearLatest, Build.object_clearLatest, writeFrom_eq, fails_map] at hwrite
    obtain ⟨k, entry, cursor, block, t, hentry, hreach, hfail⟩ := fails_writeThrough hwrite
    exact ⟨k, entry, cursor, block, t, inner, hentry, yields_writeTo.mpr hreach, rfl, hfail⟩
  · cases hmodify

theorem extent_repeats {site site' : Site} (h : site.Grows site') (var : Var) (dim : Exp) :
  Repeats (var.extent site dim) (var.extent site' dim)
  := by
  apply Repeats.bind (Site.evalInt_repeats h dim)
  intro n
  split_ifs
  · apply Repeats.failAt
  · apply Repeats.pure

theorem measure_repeats {site site' : Site} (h : site.Grows site') (var : Var) :
  Repeats (var.measure site) (var.measure site')
  := by
  apply Repeats.bind (Repeats.mapM _ (extent_repeats h var))
  intro extents
  cases extents with
  | nil => apply Repeats.pure
  | cons extent rest => apply Repeats.pure

/-- Laying out variables changes nothing that constants can name, and not the section. -/
theorem yields_placeVars {id : ObjId} {b b' : Build} {u : Unit}
    (h : Yields (placeVars id) b u b') :
  b.GrowsAt id b' ∧ (b'.object id).datBytes = (b.object id).datBytes
  := by
  obtain ⟨extents, m, hextents, hmodify⟩ := yields_bind.mp (yields_object_bind.mp h)
  obtain ⟨memo, hmeasure, rfl⟩ := yields_evaluateIn.mp hextents
  obtain rfl := yields_modifyObject.mp hmodify
  have hmemo : Memo.Grows b.memo memo :=
    (Repeats.mapM _ (measure_repeats (Site.Grows.refl (b.site id))) _ _ _ hmeasure).1
  have hmiddle : b.GrowsAt id { b with memo } := Build.GrowsAt.of_objects rfl hmemo
  constructor
  · apply hmiddle.trans
    apply Build.GrowsAt.modifyObject
    exact ⟨List.prefix_rfl, rfl, List.prefix_rfl, rfl, rfl, rfl, rfl⟩
  · apply Build.congr_modifyObject (p := Object.datBytes)
    rfl

/-- What holds where the writing pass, in `t`, has come to an entry that the measuring pass had
come to in `s`: the entry is placed as it was, a label stands where it was declared, and what is
written stands inside the block. -/
structure MeetsAgain (config : Config) (id : ObjId) (base : Nat) (cursor : Cursor) (block : Bytes)
    (entry : DatEntry) (s t : Build) (placed : Placed) : Prop where
  measured : ∃ m, Yields (place config .measure id cursor entry) s placed m
  written : Yields (place config .write id cursor entry) t placed t
  label : ∀ name alignment, entry = .label name alignment →
    ∃ t', Yields (checkLabel id placed.start name) t () t'
  inside : ∀ bytes t', Yields (payload id placed entry) t bytes t' →
    base ≤ placed.start.offset ∧ placed.start.offset - base + bytes.length ≤ block.length

/-- An object that was measured has grown since. -/
theorem grows_of_measureTo {config : Config} {id : ObjId} {before s' later : Build} {k : Nat}
    {last : Cursor} (hmeasure : Yields (measureTo config id k) before last s')
    (hlater : s'.GrowsAt id later) :
  (before.object id).Grows (later.object id)
  := by
  obtain ⟨hgrows, _⟩ := measureFrom_growsAt (yields_measureTo.mp hmeasure)
  apply (Object.grows_latest _ "").trans
  rw [← Build.object_clearLatest]
  apply (hgrows.trans hlater).objects id

/-- Where the writing pass gets to, it has the cursor of the measuring pass, the section has the
length that was measured, and the entry there is met as before. -/
theorem writeTo_follows {config : Config} {id : ObjId} {before s' later : Build} {last : Cursor}
    (hmeasure : Yields (measureTo config id (before.object id).dat.length) before last s')
    (hlater : s'.GrowsAt id later)
    (hroom : last.offset ≤ (later.object id).headerSize + (later.object id).datBytes.length)
    {k : Nat} {cursor : Cursor} {block : Bytes} {t : Build}
    (hwrite : Yields (writeTo config id k) later (cursor, block) t) :
  block.length = (later.object id).datBytes.length
    ∧ ∃ s, Yields (measureTo config id k) before cursor s
      ∧ t.object id = { later.object id with latestLabel := (s.object id).latestLabel }
      ∧ ∀ entry, (later.object id).dat[k]? = some entry →
        ∃ placed, MeetsAgain config id (later.object id).headerSize cursor block entry s t placed
  := by
  have hobject := grows_of_measureTo hmeasure hlater
  rw [yields_measureTo, List.take_length] at hmeasure
  rw [yields_writeTo] at hwrite
  rw [← hobject.dat, ← hobject.headerSize] at hmeasure
  simp only [yields_measureTo, ← hobject.dat, ← hobject.headerSize]
  by_cases hid : id < later.objects.length
  · -- the measuring pass, cut at entry `k`
    rw [← List.take_append_drop k (later.object id).dat, measureFrom_append] at hmeasure
    obtain ⟨middle, s, hfront, hback⟩ := yields_bind.mp hmeasure
    obtain ⟨hs, hle⟩ := measureFrom_growsAt hback
    have hstart : Build.Follows id later (before.clearLatest id) (later.clearLatest id) := by
      refine ⟨?_, Memo.Grows.refl _⟩
      rw [Build.object_clearLatest]
      rfl
    have hblank : (List.replicate (later.object id).datBytes.length (0 : UInt8)).length
        = (later.object id).datBytes.length := List.length_replicate
    obtain ⟨rfl, hfollows, hlength⟩ := writeThrough_follows hid hfront (hs.trans hlater) hstart
      (Nat.le_refl (later.object id).headerSize) (by omega) hwrite
    rw [hblank] at hlength
    refine ⟨hlength, s, hfront, hfollows.object_self hid, ?_⟩
    intro entry hentry
    obtain ⟨hk, rfl⟩ := List.getElem?_eq_some_iff.mp hentry
    rw [List.drop_eq_getElem_cons hk, measureFrom_cons] at hback
    obtain ⟨next, s₂, hone, hrest⟩ := yields_bind.mp hback
    obtain ⟨hs₂, hle₂⟩ := measureFrom_growsAt hrest
    obtain ⟨placed, m, hmeasured, hwritten, rfl, hlabel, _⟩ :=
      entry_follows hid hone (hs₂.trans hlater) hfollows
    refine ⟨placed, ⟨m, hmeasured⟩, hwritten, hlabel, ?_⟩
    intro bytes t' hpayload
    apply payload_inside hmeasured hpayload
    · apply (measureFrom_growsAt hfront).2
    · omega
  · -- without the object there is no entry
    have hdefault := Build.object_of_le (Nat.le_of_not_lt hid)
    have hnone : List.take k (default : Object).dat = [] := List.take_nil
    rw [hdefault, hnone] at hwrite
    obtain ⟨heq, rfl⟩ := yields_pure.mp hwrite
    cases heq
    rw [hdefault, hnone]
    refine ⟨List.length_replicate, before.clearLatest id, yields_pure.mpr ⟨rfl, rfl⟩, ?_, nofun⟩
    rw [Build.object_clearLatest, Build.object_clearLatest, hdefault]

/-- The section that is written has the length that was measured. -/
theorem length_datBytes_writeDat {config : Config} {id : ObjId} {before s' later t : Build}
    {last : Cursor}
    (hmeasure : Yields (measureTo config id (before.object id).dat.length) before last s')
    (hlater : s'.GrowsAt id later)
    (hroom : last.offset ≤ (later.object id).headerSize + (later.object id).datBytes.length)
    {u : Unit} (hwrite : Yields (writeDat config id) later u t) :
  (t.object id).datBytes.length = (later.object id).datBytes.length
  := by
  obtain ⟨cursor, block, s, hto, rfl⟩ := yields_writeDat hwrite
  obtain ⟨hlength, _, _, hobject, _⟩ := writeTo_follows hmeasure hlater hroom hto
  by_cases hid : id < s.objects.length
  · rw [Build.object_modifyObject_self _ hid, hlength]
  · rw [Build.modifyObject_of_le _ (Nat.le_of_not_lt hid), hobject]

/-- The writing pass goes the way of the measuring pass, after the variables have been laid out
and whatever constants have been evaluated since: at every entry it has the same cursor, the entry
is placed alike, a label stands where it was declared, and what is written stands inside the
section. So it fails only in the value of an instruction or of data, and the section keeps its
length in any case. -/
theorem writeDat_follows_measureDat {config : Config} {id : ObjId} {before measured laid : Build}
    {memo : Memo} (hmeasure : Yields (measureDat config id) before () measured)
    (hvars : Yields (inObject id (placeVars id)) measured () laid)
    (hmemo : Memo.Grows laid.memo memo) :
  let later : Build := { laid with memo }
  let object := later.object id
  (∀ k cursor block t, Yields (writeTo config id k) later (cursor, block) t →
    block.length = object.datBytes.length
      ∧ ∃ s, Yields (measureTo config id k) before cursor s
        ∧ t.object id = { object with latestLabel := (s.object id).latestLabel }
        ∧ ∀ entry, object.dat[k]? = some entry →
          ∃ placed, MeetsAgain config id object.headerSize cursor block entry s t placed)
  ∧ (∀ t, Yields (writeDat config id) later () t →
    (∃ cursor block s, Yields (writeTo config id object.dat.length) later (cursor, block) s
      ∧ t = s.modifyObject id fun object => { object with datBytes := block })
      ∧ (t.object id).datBytes.length = object.datBytes.length)
  ∧ ∀ fault t, Fails (writeDat config id) later fault t →
    ¬ fault.cause.IsPlacing ∧ (t.object id).datBytes = object.datBytes
      ∧ ∃ k entry cursor block s placed inner, object.dat[k]? = some entry
        ∧ Yields (writeTo config id k) later (cursor, block) s
        ∧ ((∃ instruction, entry = .instruction instruction) ∨ ∃ item, entry = .data item)
        ∧ Fails (payload id placed entry) s inner t ∧ fault = inner.inFile object.file
  := by
  obtain ⟨last, s', hmeasured, hgrows, _, hroom⟩ := yields_measureDat hmeasure
  obtain ⟨hgrows', hbytes⟩ := yields_placeVars (yields_inObject.mp hvars)
  intro later object
  -- what the measuring pass found is known in `later`, and the room for it is there
  have hlater : s'.GrowsAt id later :=
    (hgrows.trans hgrows').trans (Build.GrowsAt.of_objects rfl hmemo)
  have hroom' : last.offset ≤ object.headerSize + object.datBytes.length := by
    apply hroom.le.trans
    apply le_of_eq
    rw [← hbytes, ← (hgrows'.objects id).headerSize]
    rfl
  have hreach := @writeTo_follows config id before s' later last hmeasured hlater hroom'
  refine ⟨fun k cursor block t => hreach, ?_, ?_⟩
  · intro t hwrite
    exact ⟨yields_writeDat hwrite, length_datBytes_writeDat hmeasured hlater hroom' hwrite⟩
  · intro fault t hfail
    obtain ⟨k, entry, cursor, block, s, inner, hentry, hto, rfl, hcases⟩ := fails_writeDat hfail
    obtain ⟨_, _, _, hobject, hmeets⟩ := hreach hto
    obtain ⟨placed, hmeet⟩ := hmeets entry hentry
    rcases hcases with hplace | ⟨placed', s'', hplaced, hpayload⟩
    · cases hmeet.written.not_fails hplace
    · obtain ⟨rfl, rfl⟩ := hmeet.written.unique hplaced
      have hlabel : ∀ name alignment, entry ≠ .label name alignment := by
        rintro name alignment rfl
        obtain ⟨t', hcheck⟩ := hmeet.label name alignment rfl
        rcases fails_bind.mp hpayload with hfails | ⟨_, _, _, hpure⟩
        · cases hcheck.not_fails hfails
        · cases hpure
      obtain ⟨hkind, hcause, hobjects⟩ := payload_faults hlabel hpayload
      refine ⟨hcause, ?_, k, entry, cursor, block, s, placed, inner, hentry, hto, hkind, hpayload,
        rfl⟩
      rw [Build.object, hobjects, ← Build.object, hobject]

/-- An object with a loop in assembly: an alignment before a local label, a count that is a
constant, a jump to a label that comes later, and a reservation. -/
def loopBuild : Build :=
  { order := [0]
    objects := [
      { file := "loop", headerSize := 8
        names := [("LONGS", .con 0), ("VALUE", .con 1)]
        cons := [
          { name := { name := "LONGS" }, value := .int {} 3 },
          { name := { name := "VALUE" }, value := .name {} "finish" }]
        dat := [
          .data { pos := {}, alignment := 1, size := 1, value := .int {} 7 },
          .org {} none,
          .label { name := "start" } 4,
          .label { name := ":again" } 0,
          .instruction { pos := {}, mnemonic := "jmp", opcode := 0x5c000000, condition := 15,
                         source := some (.name {} "finish"), immediate := true },
          .data { pos := {}, alignment := 4, size := 4, value := .name {} "value"
                  count := some (.name {} "longs") },
          .res {} (some (.binary {} .add (.here {}) (.name {} ":again"))),
          .label { name := "finish" } 4,
          .fit {} none] }] }

/-- The loop is measured, and with `VALUE` evaluated meanwhile it is written along the same way. -/
theorem writeDat_follows_measureDat_loop :
  ∃ measured laid memo, Yields (measureDat {} 0) loopBuild () measured
    ∧ Yields (inObject 0 (placeVars 0)) measured () laid ∧ Memo.Grows laid.memo memo
    ∧ (∀ k cursor block t,
        Yields (writeTo {} 0 k) { laid with memo } (cursor, block) t →
          ∃ s, Yields (measureTo {} 0 k) loopBuild cursor s)
    ∧ ∀ fault t, Fails (writeDat {} 0) { laid with memo } fault t → ¬ fault.cause.IsPlacing
  := by
  have hmeasured : ((measureDat {} 0).run.run loopBuild).1 = .ok () := by decide +kernel
  have hlaid : ((inObject 0 (placeVars 0)).run.run ((measureDat {} 0).run.run loopBuild).2).1
      = .ok () := by decide +kernel
  have hpending : ((inObject 0 (placeVars 0)).run.run
      ((measureDat {} 0).run.run loopBuild).2).2.memo.status (0, 1) = .pending := by
    decide +kernel
  have hmeasure := Yields.of_result hmeasured
  have hvars := Yields.of_result hlaid
  generalize ((measureDat {} 0).run.run loopBuild).2 = measured at *
  generalize ((inObject 0 (placeVars 0)).run.run measured).2 = laid at *
  have hmemo : Memo.Grows laid.memo (laid.memo.record (0, 1) (.done (.int 4))) := by
    apply Memo.Grows.record
    intro v hdone
    cases hpending.symm.trans hdone
  obtain ⟨hreach, _, hfails⟩ := writeDat_follows_measureDat hmeasure hvars hmemo
  refine ⟨measured, laid, _, hmeasure, hvars, hmemo, ?_, fun fault t h => (hfails fault t h).1⟩
  intro k cursor block t h
  obtain ⟨_, s, hs, _⟩ := hreach k cursor block t h
  use s

end Step

end SpinHub
