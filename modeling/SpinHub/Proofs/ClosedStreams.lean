import Mathlib
import SpinHub.Code.Method
import SpinHub.Proofs.DraftInvariants
import SpinHub.Proofs.SettlingRounds

/-!
# Closed streams

While a body is written, some targets of its code are still to be placed. `Draft.Stands` says what
holds of the draft meanwhile: every other target of the code has its mark, jumps and addresses refer
to targets of the code, and every string of the pool is pushed once. Each statement places what it
opens, so at the end of a body no target is left open, and the pool places the targets of its
strings behind the code. A closed stream settles unless it runs out of rounds.
-/

namespace SpinHub

namespace Stream

/-- The target of a push of the address of a string. -/
def stringTarget? : Chunk → Option Target
  | .record { kind := .stringOffset, target, .. } => some target
  | _ => none

/-- The targets of the strings that are pushed in chunks, in order. -/
def stringTargets (chunks : List Chunk) : List Target := chunks.filterMap stringTarget?

/-- The marks of chunks in turn. -/
theorem marks_append (chunks chunks' : List Chunk) :
  marks (chunks ++ chunks') = marks chunks ++ marks chunks'
  := List.filterMap_append

theorem stringTargets_append (chunks chunks' : List Chunk) :
  stringTargets (chunks ++ chunks') = stringTargets chunks ++ stringTargets chunks'
  := List.filterMap_append

/-- Code refers to no string. -/
theorem stringTargets_appendCode (chunks : List Chunk) (bytes : Bytes) :
  stringTargets (appendCode chunks bytes) = stringTargets chunks
  := filterMap_appendCode (fun _ => rfl) chunks bytes

/-- A target is marked if its mark is one of the chunks. -/
theorem mem_marks {chunks : List Chunk} {target : Target} :
  target ∈ marks chunks ↔ .mark target ∈ chunks
  := by
  rw [marks, List.mem_filterMap]
  constructor
  · rintro ⟨chunk, hchunk, hmark⟩
    cases chunk with
    | mark other =>
      cases hmark
      exact hchunk
    | code | record => cases hmark
  · intro h
    exact ⟨_, h, rfl⟩

/-- The targets of strings are those that an address record refers to. -/
theorem mem_stringTargets {chunks : List Chunk} {target : Target} :
  target ∈ stringTargets chunks
    ↔ ∃ r, .record r ∈ chunks ∧ r.kind = .stringOffset ∧ r.target = target
  := by
  rw [stringTargets, List.mem_filterMap]
  constructor
  · rintro ⟨chunk, hchunk, hstring⟩
    rcases chunk with run | ⟨_ | _ | _, other, bytes, address⟩ | mark
    case record.stringOffset =>
      cases hstring
      exact ⟨_, hchunk, rfl, rfl⟩
    all_goals cases hstring
  · rintro ⟨⟨kind, other, bytes, address⟩, hr, rfl, rfl⟩
    exact ⟨_, hr, rfl⟩

/-- A target without a mark may be placed. -/
theorem Built.place_unmarked {stream : Stream} (built : Built stream) {target : Target}
    (hlt : target < stream.targets.length) (hmark : target ∉ marks stream.chunks) :
  Built (stream.place target)
  := by
  have hstate : stream.targets[target]? = some stream.targets[target] :=
    List.getElem?_eq_getElem hlt
  refine .place target _ hstate ?_ built
  by_contra hplaced
  apply hmark
  rw [mem_marks]
  apply built.wellFormed.marked hstate
  exact Bool.eq_true_of_not_eq_false hplaced

end Stream

namespace Draft

/-- The targets of the strings of the pool. -/
def pool (draft : Draft) : List Target := draft.strings.map Prod.fst

/-- A target of the code, and not of a string. -/
def IsCode (draft : Draft) (target : Target) : Prop :=
  target < draft.stream.targets.length ∧ target ∉ draft.pool

/-- What holds of a draft while it is written: `known` are targets of its code, and `pending` are
those of them that are still to be placed. -/
structure Stands (known pending : List Target) (draft : Draft) : Prop where
  built : draft.stream.Built
  known_code : ∀ target ∈ known, draft.IsCode target
  pending_code : ∀ target ∈ pending, draft.IsCode target
  distinct : pending.Nodup
  marked : ∀ target, target ∈ Stream.marks draft.stream.chunks
    ↔ draft.IsCode target ∧ target ∉ pending
  targeted : ∀ r, .record r ∈ draft.stream.chunks → r.kind ≠ .stringOffset → draft.IsCode r.target
  strings : Stream.stringTargets draft.stream.chunks = draft.pool
  apart : draft.pool.Nodup

namespace Stands

variable {known pending : List Target} {draft : Draft}

/-- An empty draft stands, with no targets at all. -/
theorem empty (memo : Memo) :
  Stands [] [] { memo }
  where
  built := .empty
  known_code := nofun
  pending_code := nofun
  distinct := List.nodup_nil
  marked target := by simp [Stream.marks, IsCode]
  targeted := nofun
  strings := rfl
  apart := List.nodup_nil

/-- The targets of strings were given out. -/
theorem lt_of_mem_pool (h : Stands known pending draft) {target : Target}
    (htarget : target ∈ draft.pool) :
  target < draft.stream.targets.length
  := by
  rw [← h.strings, Stream.mem_stringTargets] at htarget
  obtain ⟨r, hr, _, rfl⟩ := htarget
  exact h.built.wellFormed.targeted hr

/-- Fewer targets are known, and those pending come in another order. -/
theorem weaken (h : Stands known pending draft) {known' pending' : List Target}
    (hknown : known' ⊆ known) (hpending : pending.Perm pending') :
  Stands known' pending' draft
  where
  built := h.built
  known_code target htarget := h.known_code target (hknown htarget)
  pending_code target htarget := h.pending_code target (hpending.mem_iff.mpr htarget)
  distinct := hpending.nodup_iff.mp h.distinct
  marked target := by rw [h.marked, hpending.mem_iff]
  targeted := h.targeted
  strings := h.strings
  apart := h.apart

/-- What is beside the code and the strings does not matter. -/
theorem aside (h : Stands known pending draft) (memo : Memo) (warnings : List (Pos × String))
    (nest : Nest) :
  Stands known pending { draft with memo, warnings, nest }
  := ⟨h.built, h.known_code, h.pending_code, h.distinct, h.marked, h.targeted, h.strings, h.apart⟩

/-- Code refers to no target. -/
theorem code (h : Stands known pending draft) (bytes : Bytes) :
  Stands known pending { draft with stream := draft.stream.code bytes }
  where
  built := .code bytes h.built
  known_code := h.known_code
  pending_code := h.pending_code
  distinct := h.distinct
  marked target := by
    rw [Stream.code, Stream.marks_appendCode]
    exact h.marked target
  targeted r hr hkind := by
    rw [Stream.code, Stream.mem_appendCode (by simp)] at hr
    exact h.targeted r hr hkind
  strings := by
    rw [Stream.code, Stream.stringTargets_appendCode]
    exact h.strings
  apart := h.apart

/-- A new target is one of the code. -/
theorem isCode_newTarget (h : Stands known pending draft) (target : Target) :
  IsCode { draft with stream := draft.stream.newTarget.2 } target
    ↔ draft.IsCode target ∨ target = draft.stream.newTarget.1
  := by
  have hpool : draft.stream.newTarget.1 ∉ draft.pool := fun hmem =>
    lt_irrefl _ (h.lt_of_mem_pool hmem)
  have hlength : draft.stream.newTarget.2.targets.length = draft.stream.targets.length + 1 :=
    List.length_append
  change target < draft.stream.newTarget.2.targets.length ∧ target ∉ draft.pool ↔ _
  rw [hlength, Nat.lt_succ_iff_lt_or_eq, or_and_right]
  apply or_congr Iff.rfl
  constructor
  · exact And.left
  · rintro rfl
    exact ⟨rfl, hpool⟩

/-- A new target is known, and its place is still to come. -/
theorem newTarget (h : Stands known pending draft) :
  Stands (draft.stream.newTarget.1 :: known) (draft.stream.newTarget.1 :: pending)
    { draft with stream := draft.stream.newTarget.2 }
  where
  built := .newTarget h.built
  known_code target htarget := by
    rw [h.isCode_newTarget, or_comm]
    exact (List.mem_cons.mp htarget).imp_right (h.known_code target)
  pending_code target htarget := by
    rw [h.isCode_newTarget, or_comm]
    exact (List.mem_cons.mp htarget).imp_right (h.pending_code target)
  distinct := by
    refine List.nodup_cons.mpr ⟨?_, h.distinct⟩
    intro hmem
    exact lt_irrefl _ (h.pending_code _ hmem).1
  marked target := by
    rw [h.isCode_newTarget, List.mem_cons, not_or]
    constructor
    · intro hmark
      obtain ⟨hcode, hpending⟩ := (h.marked target).mp hmark
      exact ⟨.inl hcode, ne_of_lt hcode.1, hpending⟩
    · rintro ⟨hcode | hnew, hne, hpending⟩
      · exact (h.marked target).mpr ⟨hcode, hpending⟩
      · exact absurd hnew hne
  targeted r hr hkind := by
    rw [h.isCode_newTarget]
    exact .inl (h.targeted r hr hkind)
  strings := h.strings
  apart := h.apart

/-- A target whose place is to come is placed. -/
theorem place {target : Target} (h : Stands known (target :: pending) draft) :
  Stands known pending { draft with stream := draft.stream.place target }
  := by
  have hlength : (draft.stream.place target).targets.length = draft.stream.targets.length :=
    List.length_modify ..
  have hcode : ∀ other, IsCode { draft with stream := draft.stream.place target } other
      ↔ draft.IsCode other := by
    intro other
    change other < (draft.stream.place target).targets.length ∧ other ∉ draft.pool ↔ _
    rw [hlength]
    rfl
  have htarget := h.pending_code target List.mem_cons_self
  have hunmarked : target ∉ Stream.marks draft.stream.chunks := fun hmark =>
    ((h.marked target).mp hmark).2 List.mem_cons_self
  obtain ⟨hfresh, hdistinct⟩ := List.nodup_cons.mp h.distinct
  have hmarks : Stream.marks (draft.stream.place target).chunks
      = Stream.marks draft.stream.chunks ++ [target] := Stream.marks_append ..
  refine ⟨h.built.place_unmarked htarget.1 hunmarked, ?_, ?_, hdistinct, ?_, ?_, ?_, h.apart⟩
  · intro other hother
    exact (hcode other).mpr (h.known_code other hother)
  · intro other hother
    exact (hcode other).mpr (h.pending_code other (List.mem_cons_of_mem target hother))
  · intro other
    rw [hcode, hmarks, List.mem_append, List.mem_singleton, h.marked, List.mem_cons, not_or]
    constructor
    · rintro (⟨hother, _, hpending⟩ | rfl)
      · exact ⟨hother, hpending⟩
      · exact ⟨htarget, hfresh⟩
    · rintro ⟨hother, hpending⟩
      by_cases heq : other = target
      · exact .inr heq
      · exact .inl ⟨hother, heq, hpending⟩
  · intro r hr hkind
    have hold : .record r ∈ draft.stream.chunks := by
      simpa [Stream.place] using hr
    exact (hcode r.target).mpr (h.targeted r hold hkind)
  · have hstrings : Stream.stringTargets (draft.stream.place target).chunks
        = Stream.stringTargets draft.stream.chunks := by
      rw [Stream.place, Stream.stringTargets_append]
      exact List.append_nil _
    exact hstrings.trans h.strings

/-- A jump or an address leads to a known target. -/
theorem addRecord (h : Stands known pending draft) {kind : RecordKind} {target : Target}
    {bytes : Bytes} (hkind : kind ≠ .stringOffset) (htarget : target ∈ known)
    (built : (draft.stream.addRecord kind target bytes).Built) :
  Stands known pending { draft with stream := draft.stream.addRecord kind target bytes }
  where
  built := built
  known_code := h.known_code
  pending_code := h.pending_code
  distinct := h.distinct
  marked other := by
    rw [Stream.addRecord, Stream.marks_append]
    change other ∈ Stream.marks draft.stream.chunks ++ [] ↔ _
    rw [List.append_nil]
    exact h.marked other
  targeted r hr hr' := by
    rcases List.mem_append.mp hr with hold | hnew
    · exact h.targeted r hold hr'
    · cases List.mem_singleton.mp hnew
      exact h.known_code target htarget
  strings := by
    rw [Stream.addRecord, Stream.stringTargets_append]
    have hnone : Stream.stringTargets [.record { kind, target, bytes }] = [] := by
      cases kind with
      | jump | offset => rfl
      | stringOffset => cases hkind rfl
    rw [hnone, List.append_nil]
    exact h.strings
  apart := h.apart

/-- A string takes a target that is not one of the code. -/
theorem isCode_string (draft : Draft) (text : String) (target : Target) :
  IsCode
      { draft with
        stream := draft.stream.newTarget.2.stringOffset draft.stream.newTarget.1
        strings := draft.strings ++ [(draft.stream.newTarget.1, text)] } target
    ↔ draft.IsCode target
  := by
  have hlength : draft.stream.newTarget.2.targets.length = draft.stream.targets.length + 1 :=
    List.length_append
  change target < draft.stream.newTarget.2.targets.length
    ∧ target ∉ (draft.strings ++ [(draft.stream.newTarget.1, text)]).map Prod.fst ↔ _
  rw [hlength, List.map_append, List.mem_append, not_or, Nat.lt_succ_iff_lt_or_eq]
  simp only [List.map_cons, List.map_nil, List.mem_singleton, Stream.newTarget]
  constructor
  · rintro ⟨hlt | rfl, hpool, hne⟩
    · exact ⟨hlt, hpool⟩
    · cases hne rfl
  · rintro ⟨hlt, hpool⟩
    exact ⟨.inl hlt, hpool, ne_of_lt hlt⟩

/-- A string gets a target of its own, which is placed when the strings are written. -/
theorem string (h : Stands known pending draft) (text : String) :
  Stands known pending
    { draft with
      stream := draft.stream.newTarget.2.stringOffset draft.stream.newTarget.1
      strings := draft.strings ++ [(draft.stream.newTarget.1, text)] }
  := by
  have hlt : draft.stream.newTarget.1 < draft.stream.newTarget.2.targets.length := by
    simp [Stream.newTarget]
  have hmarks : Stream.marks (draft.stream.newTarget.2.stringOffset draft.stream.newTarget.1).chunks
      = Stream.marks draft.stream.chunks := (Stream.marks_append ..).trans (List.append_nil _)
  refine ⟨.stringOffset _ hlt (.newTarget h.built), ?_, ?_, h.distinct, ?_, ?_, ?_, ?_⟩
  · intro target htarget
    exact (isCode_string draft text target).mpr (h.known_code target htarget)
  · intro target htarget
    exact (isCode_string draft text target).mpr (h.pending_code target htarget)
  · intro target
    rw [isCode_string, hmarks]
    exact h.marked target
  · intro r hr hkind
    rw [isCode_string]
    rcases List.mem_append.mp hr with hold | hnew
    · exact h.targeted r hold hkind
    · cases List.mem_singleton.mp hnew
      cases hkind rfl
  · rw [pool, List.map_append, ← pool, ← h.strings]
    exact Stream.stringTargets_append ..
  · rw [pool, List.map_append, ← pool, List.nodup_append]
    refine ⟨h.apart, List.nodup_singleton _, ?_⟩
    intro target htarget other hother heq
    cases List.mem_singleton.mp hother
    exact absurd (h.lt_of_mem_pool htarget) (by rw [heq]; exact lt_irrefl _)

end Stands

end Draft

/-! ### Steps -/

/-- The targets of the innermost loop. -/
def Nest.targets (nest : Nest) : List Target := nest.next.toList ++ nest.quit.toList

namespace Emit

/-- The draft has `nest` around the statement at hand, and its targets stand. -/
def Stands (nest : Nest) (known pending : List Target) (draft : Draft) : Prop :=
  draft.nest = nest ∧ draft.Stands known pending

variable {nest : Nest} {known pending : List Target}

/-- A new target is known from then on, and pending. -/
theorem newTarget_stands :
  Leads (Stands nest known pending) newTarget fun target =>
    Stands nest (target :: known) (target :: pending)
  := by
  rintro draft target draft' h hyields
  cases hyields
  exact ⟨h.1, h.2.newTarget⟩

/-- A pending target is placed, and is no longer pending. -/
theorem place_stands {target : Target} :
  Leads (Stands nest known (target :: pending)) (place target) fun _ => Stands nest known pending
  := Leads.modify fun _ h => ⟨h.1, h.2.place⟩

/-- A jump leads to a known target, which may be pending. -/
theorem jump_stands {target : Target} (htarget : target ∈ known) (byte : UInt8) :
  Leads (Stands nest known pending) (jump byte target) fun _ => Stands nest known pending
  := Leads.modify fun _ h => ⟨h.1, h.2.addRecord nofun htarget
    (.jump byte target (h.2.known_code target htarget).1 h.2.built)⟩

/-- An address is that of a known target. -/
theorem offset_stands {target : Target} (htarget : target ∈ known) :
  Leads (Stands nest known pending) (offset target) fun _ => Stands nest known pending
  := Leads.modify fun _ h => ⟨h.1, h.2.addRecord nofun htarget
    (.offset target (h.2.known_code target htarget).1 h.2.built)⟩

/-- The code of an expression leaves no target of its own open. -/
theorem invariant_stands :
  Invariant fun targets : List Target × List Target => Stands nest targets.1 targets.2
  where
  aside memo warnings h := ⟨h.1, h.2.aside memo warnings _⟩
  code _ bytes := Leads.modify fun _ h => ⟨h.1, h.2.code bytes⟩
  string _ text := by
    intro draft _ draft' h hyields
    cases hyields
    exact ⟨h.1, h.2.string text⟩
  answered {x} hx targets := by
    refine Leads.bind newTarget_stands fun done => ?_
    refine Leads.andThen (offset_stands List.mem_cons_self) ?_
    refine Leads.andThen (hx (done :: targets.1, done :: targets.2)) ?_
    exact place_stands.mono (fun _ => id) fun _ _ h =>
      ⟨h.1, h.2.weaken (List.subset_cons_self _ _) (.refl _)⟩

/-- With `nest` around it, a computation places all targets that it makes, and jumps to those and to
the targets of `nest`, which it leaves around it. -/
def Seals (nest : Nest) (x : Emit Unit) : Prop :=
  ∀ known pending, nest.targets ⊆ known →
    Leads (Stands nest known pending) x fun _ => Stands nest known pending

variable {x y : Emit Unit} {P : Draft → Prop}

/-- Two sealed parts in turn are sealed. -/
theorem Seals.andThen (hx : Seals nest x) (hy : Seals nest y) :
  Seals nest (do x; y)
  := fun known pending hknown => .andThen (hx known pending hknown) (hy known pending hknown)

theorem Seals.opcode (byte : UInt8) :
  Seals nest (opcode byte)
  := fun known pending _ => invariant_stands.code (known, pending) [byte]

/-- The code of an expression is sealed. -/
theorem Seals.push (site : Site) (e : Exp) :
  Seals nest (e.push site)
  := fun known pending _ => invariant_stands.push site e (known, pending)

/-- Another nest around what follows changes no target. -/
theorem modifyNest_stands (f : Nest → Nest) :
  Leads (Stands nest known pending) (modifyNest f) fun _ => Stands (f nest) known pending
  := Leads.modify fun _ h => ⟨congrArg f h.1, h.2.aside _ _ _⟩

/-- Behind a part the nest around it is there again, with the targets that were known before. -/
theorem restoring_stands
    (h : Leads (Stands nest known pending) x fun _ => Draft.Stands known pending) :
  Leads (Stands nest known pending) (restoring x) fun _ => Stands nest known pending
  := by
  intro d u d' hd hyields
  obtain ⟨m, hpart, rfl⟩ := yields_restoring.mp hyields
  exact ⟨hd.1, (h d u m hd hpart).aside _ _ _⟩

/-- A target that was made on the way is not needed any more. -/
theorem forget {target : Target} (h : Leads P x fun _ => Stands nest (target :: known) pending) :
  Leads P x fun _ => Stands nest known pending
  := h.mono (fun _ => id) fun _ _ hstands =>
    ⟨hstands.1, hstands.2.weaken (List.subset_cons_self _ _) (.refl _)⟩

/-- Places a target that is not the latest one. -/
theorem place_second {first target : Target} :
  Leads (Stands nest known (first :: target :: pending)) (place target)
    fun _ => Stands nest known (first :: pending)
  := place_stands.mono (fun _ h => ⟨h.1, h.2.weaken (List.Subset.refl _) (.swap ..)⟩) fun _ _ => id

end Emit

/-! ### Statements -/

open Emit

namespace Leave

/-- The target of a way to leave a loop is one of the nest. -/
theorem mem_targets {leave : Leave} {nest : Nest} {target : Target}
    (h : leave.target? nest = some target) :
  target ∈ nest.targets
  := by
  rw [Nest.targets, List.mem_append, Option.mem_toList, Option.mem_toList]
  cases leave with
  | next => exact .inl h
  | quit => exact .inr h

/-- Leaving a loop jumps to a target of the nest, if there is a loop. -/
theorem exit_seals (leave : Leave) (nest : Nest) (pos : Pos) :
  Seals nest (leave.exit nest pos)
  := by
  intro known pending hknown
  rw [exit]
  cases htarget : leave.target? nest with
  | none =>
    intro draft _ draft' _ hyields
    cases hyields
  | some target =>
    have hjump : Leads (Stands nest known pending) (jump (leave.opcode nest) target)
        fun _ => Stands nest known pending := jump_stands (hknown (mem_targets htarget)) _
    dsimp only
    split_ifs
    · exact .andThen (invariant_stands.code (known, pending) _)
        (.andThen (Seals.opcode 0x14 known pending hknown) hjump)
    · exact hjump

/-- A statement that leaves a loop is sealed in any nest. -/
theorem emit_seals (leave : Leave) (nest : Nest) (pos : Pos) :
  Seals nest (leave.emit pos)
  := by
  intro known pending hknown d u d' hd hyields
  obtain ⟨_, _, hget, hexit⟩ := yields_bind.mp hyields
  cases hget
  rw [hd.1] at hexit
  exact leave.exit_seals nest pos known pending hknown d u d' hd hexit

end Leave

namespace Site

variable {nest : Nest}

/-- Leaving a method is sealed. -/
theorem leaveMethod_seals (site : Site) (bare : UInt8) (value : Option Exp) :
  Seals nest (site.leaveMethod bare value)
  := by
  cases value with
  | none => exact Seals.opcode bare
  | some e => exact (Seals.push site e).andThen (Seals.opcode _)

theorem builtin_seals (site : Site) (byte : UInt8) (args : List Exp) :
  Seals nest (site.builtin byte args)
  := by
  intro known pending hknown
  refine Leads.andThen ?_ (Seals.opcode byte known pending hknown)
  apply Leads.forM
  intro e _
  exact Seals.push site e known pending hknown

/-- A branch is sealed if its parts are: it places the targets that it makes. -/
theorem branch_seals (site : Site) (negated : Bool) (condition : Exp) {yes : Emit Unit}
    {no : Option (Emit Unit)} (hyes : Seals nest yes)
    (hno : ∀ part, no = some part → Seals nest part) :
  Seals nest (site.branch negated condition yes no)
  := by
  intro known pending hknown
  refine .andThen (Seals.push site condition known pending hknown) ?_
  refine .bind newTarget_stands fun otherwise => ?_
  refine .andThen (jump_stands List.mem_cons_self _) ?_
  refine .andThen (hyes _ _ (List.subset_cons_of_subset otherwise hknown)) ?_
  cases no with
  | none => exact forget place_stands
  | some part =>
    refine .bind newTarget_stands fun done => ?_
    refine .andThen (jump_stands List.mem_cons_self _) ?_
    refine .andThen place_second ?_
    refine .andThen (hno part rfl _ _ ?_) (forget (forget place_stands))
    exact List.subset_cons_of_subset done (List.subset_cons_of_subset otherwise hknown)

/-- The passes of a loop place the target of the next pass. -/
theorem passes_stands (site : Site) {loop : Loop} (control : LoopControl) {body : Emit Unit}
    (hbody : Seals loop.nest body) {known pending : List Target}
    (hknown : loop.nest.targets ⊆ known) :
  Leads (Stands loop.nest known (loop.next :: pending)) (site.passes loop control body)
    fun _ => Stands loop.nest known pending
  := by
  have hnext : loop.next ∈ known := hknown (by simp [Nest.targets, Loop.nest])
  have hquit : loop.quit ∈ known := hknown (by simp [Nest.targets, Loop.nest])
  cases control with
  | forever =>
    exact .andThen place_stands (.andThen (hbody _ _ hknown) (jump_stands hnext _))
  | times count =>
    refine .andThen (Seals.push site count _ _ hknown) ?_
    refine .andThen (jump_stands hquit _) ?_
    refine .bind newTarget_stands fun top => ?_
    refine .andThen place_stands ?_
    refine .andThen (hbody _ _ (List.subset_cons_of_subset top hknown)) ?_
    exact .andThen place_stands (forget (jump_stands List.mem_cons_self _))
  | before negated condition =>
    refine .andThen place_stands ?_
    refine .andThen (Seals.push site condition _ _ hknown) ?_
    refine .andThen (jump_stands hquit _) ?_
    exact .andThen (hbody _ _ hknown) (jump_stands hnext _)
  | after negated condition =>
    refine .bind newTarget_stands fun top => ?_
    refine .andThen place_stands ?_
    refine .andThen (hbody _ _ (List.subset_cons_of_subset top hknown)) ?_
    refine .andThen place_stands ?_
    refine .andThen (Seals.push site condition _ _ (List.subset_cons_of_subset top hknown)) ?_
    exact forget (jump_stands List.mem_cons_self _)
  | fromTo counter first last step =>
    refine .bind newTarget_stands fun top => ?_
    have hknown' := List.subset_cons_of_subset top hknown
    have hrange : Leads (Stands loop.nest (top :: known) pending)
        (do
          first.push site
          last.push site
          counter.access site .modify
          Emit.jump (if step.isSome then 0x06 else 0x02) top)
        fun _ => Stands loop.nest known pending := by
      refine .andThen (Seals.push site first _ _ hknown') ?_
      refine .andThen (Seals.push site last _ _ hknown') ?_
      refine .andThen (invariant_stands.access site counter .modify (top :: known, pending)) ?_
      exact forget (jump_stands List.mem_cons_self _)
    refine .andThen (Seals.push site first _ _ hknown') ?_
    refine .andThen (invariant_stands.access site counter .store (top :: known, _)) ?_
    refine .andThen place_stands ?_
    refine .andThen (hbody _ _ hknown') ?_
    refine .andThen place_stands ?_
    cases step with
    | none => exact hrange
    | some e => exact .andThen (Seals.push site e _ _ hknown') hrange

/-- The body of a loop is written with the loop around it, and behind the loop there is what was
there before. -/
theorem loop_seals (site : Site) (control : LoopControl) {body : Emit Unit}
    (hbody : ∀ loop : Loop, Seals loop.nest body) :
  Seals nest (site.loop control body)
  := by
  intro known pending _
  refine restoring_stands (.bind newTarget_stands fun next => ?_)
  refine .bind newTarget_stands fun quit => ?_
  refine .andThen (modifyNest_stands _) ?_
  have hplace (nest : Nest) : Leads (Stands nest (quit :: next :: known) (quit :: pending))
      (place quit) fun _ draft => draft.Stands known pending :=
    (forget (forget place_stands)).mono (fun _ => id) fun _ _ h => h.2
  refine .andThen (Leads.mono (passes_stands site control (hbody _) ?_) (fun _ h => ?_)
    fun _ _ => id) (hplace _)
  · simp [Nest.targets, Loop.nest]
  · exact ⟨h.1, h.2.weaken (List.Subset.refl _) (.swap ..)⟩

/-- Targets are made for all arms before any of them is written. -/
theorem newTargets_stands {ι : Type} (arms : List ι) {known pending : List Target} :
  Leads (Stands nest known pending) (arms.mapM fun _ => Emit.newTarget) fun made draft =>
    made.length = arms.length ∧ Stands nest (made ++ known) (made ++ pending) draft
  := by
  induction arms generalizing known pending with
  | nil => exact .pure fun _ h => ⟨rfl, h⟩
  | cons arm rest ih =>
    rw [List.mapM_cons]
    refine .bind newTarget_stands fun target => ?_
    refine .bind ih fun made => .pure ?_
    rintro draft ⟨hlength, h⟩
    refine ⟨congrArg (· + 1) hlength, h.1, h.2.weaken ?_ ?_⟩
    · exact List.perm_middle.symm.subset
    · exact List.perm_middle

/-- The tests of an arm jump to the target of the arm. -/
theorem armTests_stands (site : Site) (tests : List (Range Exp)) {target : Target}
    {known pending : List Target} (htarget : target ∈ known) :
  Leads (Stands nest known pending) (site.armTests tests target)
    fun _ => Stands nest known pending
  := invariant_stands.armTests site (i := (known, pending)) (jump_stands htarget) tests

/-- The bodies of the arms place the targets of the arms. -/
theorem armBodies_stands {arms : List (List (Range Exp) × Emit Unit)}
    (harms : ∀ arm ∈ arms, Seals nest arm.2) {made : List Target}
    (hlength : made.length = arms.length) {known pending : List Target}
    (hknown : nest.targets ⊆ known) :
  Leads (Stands nest known (made ++ pending))
    ((arms.zip made).forM fun (arm, target) => armBody arm.2 target)
    fun _ => Stands nest known pending
  := by
  induction arms generalizing made with
  | nil =>
    cases List.eq_nil_of_length_eq_zero hlength
    exact .pure fun _ h => h
  | cons arm rest ih =>
    cases made with
    | nil => cases hlength
    | cons target made =>
      obtain ⟨harm, hrest⟩ := List.forall_mem_cons.mp harms
      refine .andThen ?_ (ih hrest (Nat.succ.inj hlength))
      exact .andThen place_stands (.andThen (harm _ _ hknown) (Seals.opcode _ _ _ hknown))

/-- A selection is sealed if its arms are: each arm has a target, and one is behind them all. -/
theorem select_seals (site : Site) (value : Exp) {arms : List (List (Range Exp) × Emit Unit)}
    (harms : ∀ arm ∈ arms, Seals nest arm.2) {other : Emit Unit} (hother : Seals nest other) :
  Seals nest (site.select value arms other)
  := by
  intro known pending hknown
  refine .bind newTarget_stands fun done => ?_
  refine .andThen (offset_stands List.mem_cons_self) ?_
  refine .andThen (Seals.push site value _ _ (List.subset_cons_of_subset done hknown)) ?_
  refine .bind (newTargets_stands arms) fun made => .assume fun hlength => ?_
  have hmade : nest.targets ⊆ made ++ done :: known :=
    List.subset_append_of_subset_right made (List.subset_cons_of_subset done hknown)
  refine .andThen (Leads.forM ?_) ?_
  · rintro ⟨arm, target⟩ hmem
    apply armTests_stands
    simp [(List.of_mem_zip hmem).2]
  refine .andThen (hother _ _ hmade) ?_
  refine .andThen (Seals.opcode _ _ _ hmade) ?_
  refine .andThen (armBodies_stands harms hlength hmade) ?_
  refine place_stands.mono (fun _ => id) fun _ _ h => ⟨h.1, h.2.weaken ?_ (.refl _)⟩
  exact List.subset_append_of_subset_right made (List.subset_cons_self done known)

/-- The parts of a CASE are written with one CASE more around them. -/
theorem cases_seals (site : Site) (value : Exp) {arms : List (List (Range Exp) × Emit Unit)}
    (harms : ∀ arm ∈ arms, Seals nest.deeper arm.2) {other : Emit Unit}
    (hother : Seals nest.deeper other) :
  Seals nest (site.cases value arms other)
  := fun known pending hknown => .andThen (modifyNest_stands Nest.deeper)
    (.andThen (site.select_seals value harms hother known pending hknown)
      (modifyNest_stands Nest.shallower))

end Site

mutual

/-- Every statement places the targets that it makes. -/
theorem Stmt.emit_seals (site : Site) (nest : Nest) :
    ∀ statement : Stmt, Seals nest (statement.emit site)
  | .exp _ e => by
    rw [Stmt.emit]
    exact fun known pending _ => invariant_stands.run site e (known, pending)
  | .ret _ value | .abort _ value => by
    rw [Stmt.emit]
    apply site.leaveMethod_seals
  | .branch _ negated condition yes none => by
    rw [Stmt.emit]
    exact site.branch_seals negated condition (Stmt.block_seals site nest yes) nofun
  | .branch _ negated condition yes (some no) => by
    rw [Stmt.emit]
    apply site.branch_seals negated condition (Stmt.block_seals site nest yes)
    rintro _ ⟨⟩
    exact Stmt.block_seals site nest no
  | .loop _ control body => by
    rw [Stmt.emit]
    exact site.loop_seals control fun loop => Stmt.block_seals site loop.nest body
  | .next pos | .quit pos => by
    rw [Stmt.emit]
    apply Leave.emit_seals
  | .select _ value arms other => by
    rw [Stmt.emit]
    exact site.cases_seals value (Stmt.arms_seals site nest.deeper arms)
      (Stmt.block_seals site nest.deeper other)
  | .reboot _ => by
    rw [Stmt.emit]
    exact fun known pending _ => invariant_stands.code (known, pending) _
  | .fillMove _ _ _ | .wait _ _ _ | .clkset _ _ _ | .cogstop _ _ => by
    rw [Stmt.emit]
    apply site.builtin_seals

/-- A block is sealed in any nest. -/
theorem Stmt.block_seals (site : Site) (nest : Nest) :
    ∀ body : List Stmt, Seals nest (Stmt.block site body)
  | [] => fun _ _ _ => .pure fun _ h => h
  | statement :: rest =>
    (Stmt.emit_seals site nest statement).andThen (Stmt.block_seals site nest rest)

/-- The bodies of all arms are sealed in any nest. -/
theorem Stmt.arms_seals (site : Site) (nest : Nest) :
    ∀ arms : List Arm, ∀ arm ∈ Stmt.arms site arms, Seals nest arm.2
  | [] => nofun
  | .mk _ body :: rest =>
    List.forall_mem_cons.mpr ⟨Stmt.block_seals site nest body, Stmt.arms_seals site nest rest⟩

end

/-! ### The end of a body -/

namespace Stream

/-- Final bytes behind a mark are a run of their own. -/
theorem appendCode_mark (chunks : List Chunk) (target : Target) {bytes : Bytes} (h : bytes ≠ []) :
  appendCode (chunks ++ [.mark target]) bytes = chunks ++ [.mark target, .code bytes]
  := by
  induction chunks with
  | nil => simp [appendCode, h]
  | cons chunk rest ih =>
    have hmore : rest ++ [.mark target] ≠ [] := by simp
    rw [List.cons_append, appendCode, ih, List.cons_append]
    intro run _ hrest
    exact hmore hrest

/-- Adds the strings of a pool, each at its target. -/
def addStrings (stream : Stream) (strings : List (Target × String)) : Stream :=
  strings.foldl (fun stream entry => (stream.place entry.1).code (Draft.stringBytes entry.2)) stream

/-- Behind the code stand the strings, each with its mark in front. -/
theorem chunks_addStrings (stream : Stream) (strings : List (Target × String)) :
  (stream.addStrings strings).chunks
    = stream.chunks ++ strings.flatMap fun entry =>
      [.mark entry.1, .code (Draft.stringBytes entry.2)]
  := by
  induction strings generalizing stream with
  | nil => exact (List.append_nil _).symm
  | cons entry rest ih =>
    have hchunks : ((stream.place entry.1).code (Draft.stringBytes entry.2)).chunks
        = stream.chunks ++ [.mark entry.1, .code (Draft.stringBytes entry.2)] :=
      appendCode_mark _ _ (by simp [Draft.stringBytes])
    rw [addStrings, List.foldl_cons, ← addStrings, ih, hchunks, List.flatMap_cons,
      List.append_assoc]

theorem length_addStrings (stream : Stream) (strings : List (Target × String)) :
  (stream.addStrings strings).targets.length = stream.targets.length
  := by
  induction strings generalizing stream with
  | nil => rfl
  | cons entry rest ih =>
    rw [addStrings, List.foldl_cons, ← addStrings, ih]
    exact List.length_modify ..

/-- The strings are marked in the order in which they were collected. -/
theorem marks_addStrings (stream : Stream) (strings : List (Target × String)) :
  marks (stream.addStrings strings).chunks = marks stream.chunks ++ strings.map Prod.fst
  := by
  rw [chunks_addStrings, marks_append]
  congr 1
  induction strings with
  | nil => rfl
  | cons entry rest ih =>
    rw [List.flatMap_cons, marks_append, ih, List.map_cons]
    rfl

/-- Strings refer to no strings. -/
theorem stringTargets_addStrings (stream : Stream) (strings : List (Target × String)) :
  stringTargets (stream.addStrings strings).chunks = stringTargets stream.chunks
  := by
  rw [chunks_addStrings, stringTargets_append, List.append_right_eq_self]
  induction strings with
  | nil => rfl
  | cons entry rest ih =>
    rw [List.flatMap_cons, stringTargets_append, ih]
    rfl

/-- Strings may be added if their targets were given out, are distinct and not marked yet. -/
theorem Built.addStrings {stream : Stream} (built : Built stream)
    {strings : List (Target × String)} (hapart : (strings.map Prod.fst).Nodup)
    (hlt : ∀ target ∈ strings.map Prod.fst, target < stream.targets.length)
    (hunmarked : ∀ target ∈ strings.map Prod.fst, target ∉ marks stream.chunks) :
  Built (stream.addStrings strings)
  := by
  induction strings generalizing stream with
  | nil => exact built
  | cons entry rest ih =>
    rw [List.map_cons] at hapart hlt hunmarked
    obtain ⟨hfresh, hrest⟩ := List.nodup_cons.mp hapart
    obtain ⟨hentry, hlt⟩ := List.forall_mem_cons.mp hlt
    obtain ⟨hunplaced, hunmarked⟩ := List.forall_mem_cons.mp hunmarked
    apply ih (.code _ (built.place_unmarked hentry hunplaced)) hrest
    · intro target htarget
      apply lt_of_lt_of_eq (hlt target htarget)
      exact (List.length_modify ..).symm
    · intro target htarget
      rw [Stream.code, marks_appendCode, Stream.place, marks_append, List.mem_append, not_or]
      refine ⟨hunmarked target htarget, ?_⟩
      rintro hmem
      cases List.mem_singleton.mp hmem
      exact hfresh htarget

end Stream

namespace Draft

theorem close_eq (draft : Draft) :
  draft.close = (draft.stream.code [returnOpcode]).addStrings draft.strings
  := rfl

/-- Closing a draft adds no records. -/
theorem record_of_close {draft : Draft} {r : Record} (hr : .record r ∈ draft.close.chunks) :
  .record r ∈ draft.stream.chunks
  := by
  rw [close_eq, Stream.chunks_addStrings, List.mem_append] at hr
  rcases hr with hcode | hpool
  · exact (Stream.mem_appendCode (by simp) _ _).mp hcode
  · obtain ⟨entry, _, hchunk⟩ := List.mem_flatMap.mp hpool
    simp at hchunk

/-- The bytes of a text with its end: one byte for each character, its code modulo 256, and a
zero. -/
structure Terminated (text : String) (bytes : Bytes) : Prop where
  length : bytes.length = text.toList.length + 1
  chars : ∀ (i : Nat) (c : Char), text.toList[i]? = some c →
    ∃ byte : UInt8, bytes[i]? = some byte ∧ byte.toNat = c.toNat % 256
  zero : bytes.getLast? = some 0

/-- A string is written with a zero behind it. -/
theorem stringBytes_terminated (text : String) :
  Terminated text (stringBytes text)
  where
  length := by simp [stringBytes]
  chars i c hc := by
    refine ⟨UInt8.ofNat c.toNat, ?_, UInt8.toNat_ofNat'⟩
    obtain ⟨hi, _⟩ := List.getElem?_eq_some_iff.mp hc
    rw [stringBytes, List.getElem?_append_left (by rwa [List.length_map]), List.getElem?_map, hc]
    rfl
  zero := List.getLast?_concat ..

/-- A finished stream in which everything has its place. The code ends with the return, and the
strings of the pool follow, each behind the mark of its target. -/
structure Closed (draft : Draft) : Prop where
  /-- Every target is placed, and placed once. -/
  placed : ∀ target < draft.close.targets.length,
    (Stream.marks draft.close.chunks).count target = 1
  /-- Behind the code stand a return and the strings of the pool, each at its target. -/
  chunks : draft.close.chunks = Stream.appendCode draft.stream.chunks [0x32]
    ++ draft.strings.flatMap fun entry => [.mark entry.1, .code (stringBytes entry.2)]
  terminated : ∀ entry ∈ draft.strings, Terminated entry.2 (stringBytes entry.2)
  /-- Jumps and addresses lead into the code. -/
  targeted : ∀ r, .record r ∈ draft.close.chunks → r.kind ≠ .stringOffset →
    .mark r.target ∈ draft.stream.chunks
  /-- Strings are pushed in the order of the pool, and no target of the pool lies in the code. -/
  strings : Stream.stringTargets draft.close.chunks = draft.strings.map Prod.fst
  behind : ∀ entry ∈ draft.strings, .mark entry.1 ∉ draft.stream.chunks

namespace Stands

variable {draft : Draft} (h : Stands [] [] draft)

include h

/-- The target of a string is not marked before the draft is closed. -/
theorem not_marked_of_mem_pool {target : Target} (htarget : target ∈ draft.pool) :
  target ∉ Stream.marks draft.stream.chunks
  := fun hmark => ((h.marked target).mp hmark).1.2 htarget

/-- A closed draft is a stream that was built step by step. -/
theorem built_close :
  draft.close.Built
  := by
  rw [close_eq]
  apply Stream.Built.addStrings (.code _ h.built) h.apart
  · intro target htarget
    exact h.lt_of_mem_pool htarget
  · intro target htarget
    rw [Stream.code, Stream.marks_appendCode]
    exact h.not_marked_of_mem_pool htarget

/-- In a closed draft all targets are marked. -/
theorem mem_marks_close {target : Target} (htarget : target < draft.close.targets.length) :
  target ∈ Stream.marks draft.close.chunks
  := by
  rw [close_eq, Stream.marks_addStrings, Stream.code, Stream.marks_appendCode, List.mem_append]
  rw [close_eq, Stream.length_addStrings] at htarget
  by_cases hpool : target ∈ draft.pool
  · exact .inr hpool
  · exact .inl ((h.marked target).mpr ⟨⟨htarget, hpool⟩, List.not_mem_nil⟩)

/-- In a closed draft all targets are placed. -/
theorem placed_close :
  ∀ state ∈ draft.close.targets, state.placed = true
  := by
  intro state hstate
  obtain ⟨target, htarget, rfl⟩ := List.mem_iff_getElem.mp hstate
  have hplaced := h.built_close.regular.placed target (h.mem_marks_close htarget)
  rw [List.getElem?_map, List.getElem?_eq_getElem htarget] at hplaced
  exact Option.some_inj.mp hplaced

/-- A draft that stands with nothing pending is closed by the return and its strings. -/
theorem closed :
  draft.Closed
  where
  placed target htarget :=
    List.count_eq_one_of_mem h.built_close.regular.nodup (h.mem_marks_close htarget)
  chunks := Stream.chunks_addStrings ..
  terminated entry _ := stringBytes_terminated entry.2
  targeted r hr hkind := by
    rw [← Stream.mem_marks, h.marked]
    exact ⟨h.targeted r (record_of_close hr) hkind, List.not_mem_nil⟩
  strings := by
    rw [close_eq, Stream.stringTargets_addStrings, Stream.code, Stream.stringTargets_appendCode]
    exact h.strings
  behind entry hentry := by
    rw [← Stream.mem_marks]
    exact h.not_marked_of_mem_pool (List.mem_map_of_mem hentry)

/-- A closed draft is assembled, or its offsets do not settle within the limit. -/
theorem finish_cases (base : Int) (limit : Nat) :
  (∃ code, draft.finish base limit = .ok code)
    ∨ draft.finish base limit = .error (.stillChanging limit)
  := by
  obtain ⟨_, _, _, hend⟩ := Stream.settleRounds_eq h.built_close.regular base limit limit
  rw [← Stream.settle_of_placed h.placed_close] at hend
  rw [finish]
  revert hend
  rcases draft.close.settle base limit with ⟨stream, result⟩
  rintro (hok | hchanging)
  · obtain rfl := hok
    exact .inl ⟨_, rfl⟩
  · obtain rfl := hchanging
    exact .inr rfl

/-- Enough rounds settle the offsets of a closed draft. -/
theorem finish_ok (base : Int) {limit : Nat}
    (hlimit : draft.close.jumpCount + 3 * draft.close.offsetCount + 2 ≤ limit) :
  ∃ code, draft.finish base limit = .ok code
  := by
  have hregular := h.built_close.regular
  have hgrowth := hregular.lastLength_le
  have hend : (draft.close.settle base limit).2 = .ok () := by
    rw [Stream.settle_of_placed h.placed_close]
    apply Stream.settleRounds_ok limit hregular
    omega
  rw [finish]
  revert hend
  rcases draft.close.settle base limit with ⟨stream, result⟩
  rintro rfl
  exact ⟨_, rfl⟩

end Stands

end Draft

namespace Site

/-- The draft of a body is what its block writes on an empty one. -/
theorem yields_draft {site : Site} {body : List Stmt} {memo memo' : Memo} {draft : Draft} :
  Yields (site.draft body) memo draft memo'
    ↔ Yields (Stmt.block site body) { memo } () draft ∧ memo' = draft.memo
  := by
  rw [Yields, Site.draft, ExceptT.run_mk, StateT.run, Yields]
  rcases (Stmt.block site body).run.run { memo } with ⟨fault | u, out⟩
  · constructor
    · intro h
      cases h
    · rintro ⟨h, _⟩
      cases h
  · constructor
    · intro h
      cases h
      exact ⟨rfl, rfl⟩
    · rintro ⟨h, rfl⟩
      cases h
      rfl

/-- The draft of a body stands, with nothing known from outside and nothing pending. -/
theorem draft_stands {site : Site} {body : List Stmt} {memo memo' : Memo} {draft : Draft}
    (h : Yields (site.draft body) memo draft memo') :
  draft.Stands [] []
  := by
  obtain ⟨hblock, _⟩ := yields_draft.mp h
  exact (Stmt.block_seals site {} body [] [] (List.Subset.refl _) _ _ _ ⟨rfl, .empty memo⟩ hblock).2

end Site

/-- What is left of compiling a method once its body has been written. -/
theorem Method.run_compile {method : Method} {outer : Site} {frame : Frame} {draft : Draft}
    {start memo memo' : Memo} (hframe : Yields (method.frame outer) start frame memo)
    (hdraft : Yields (Site.draft { outer with scope := frame.scope } method.body) memo draft memo')
    (config : Config) (base : Int) :
  (method.compile config outer base).run.run start
    = match draft.finish base config.roundLimit with
      | .ok code =>
        (.ok { code, localsSize := frame.localsSize, warnings := draft.warnings }, memo')
      | .error cause => (.error { cause, pos := method.name.pos }, memo')
  := by
  rw [Yields] at hframe hdraft
  rw [Method.compile, run_bind, hframe]
  dsimp only
  rw [run_bind, hdraft]
  dsimp only
  cases draft.finish base config.roundLimit <;> rfl

/-- The stream of a body that could be written is closed, so what is left of compiling its method
can fail only by running out of rounds, and with enough rounds it does not fail. -/
theorem Site.draft_closed {site : Site} {body : List Stmt} {memo memo' : Memo} {draft : Draft}
    (h : Yields (site.draft body) memo draft memo') :
  draft.Closed
    ∧ (∀ base limit, (∃ code, draft.finish base limit = .ok code)
      ∨ draft.finish base limit = .error (.stillChanging limit))
    ∧ (∀ base limit, draft.close.jumpCount + 3 * draft.close.offsetCount + 2 ≤ limit →
      ∃ code, draft.finish base limit = .ok code)
    ∧ ∀ (method : Method) (config : Config) (outer : Site) (base : Int) (frame : Frame)
        (start : Memo), method.body = body → { outer with scope := frame.scope } = site →
        Yields (method.frame outer) start frame memo →
      ((∃ code, Yields (method.compile config outer base) start
          { code, localsSize := frame.localsSize, warnings := draft.warnings } memo')
        ∨ Fails (method.compile config outer base) start
          { cause := .stillChanging config.roundLimit, pos := method.name.pos } memo')
      ∧ (draft.close.jumpCount + 3 * draft.close.offsetCount + 2 ≤ config.roundLimit →
        ∃ code, Yields (method.compile config outer base) start
          { code, localsSize := frame.localsSize, warnings := draft.warnings } memo')
  := by
  have hstands := draft_stands h
  refine ⟨hstands.closed, hstands.finish_cases, fun base limit => hstands.finish_ok base, ?_⟩
  rintro method config outer base frame start rfl rfl hframe
  have hrun := Method.run_compile hframe h config base
  constructor
  · rcases hstands.finish_cases base config.roundLimit with ⟨code, hfinish⟩ | hfinish
    · rw [hfinish] at hrun
      exact .inl ⟨code, hrun⟩
    · rw [hfinish] at hrun
      exact .inr hrun
  · intro hlimit
    obtain ⟨code, hfinish⟩ := hstands.finish_ok base hlimit
    rw [hfinish] at hrun
    exact ⟨code, hrun⟩

/-- A counted loop around a CASE on the result of a search, and a string behind it. -/
def searchMethod : Method where
  name := { name := "find" }
  isPublic := true
  result := none
  params := []
  locals := []
  body :=
    [.loop {} (.times (.int {} 3))
      [.select {}
        (.look {} .lookup (.int {} 2) [.single (.int {} 5), .span (.int {} 7) (.int {} 9)])
        [.mk [.single (.int {} 8)] [.quit {}]] [.next {}]],
     .ret {} (some (.string {} "Hi"))]

/-- The object of the method, before anything is laid out. -/
def searchSite : Site := { objects := [{ file := "top", methods := [searchMethod] }], obj := 0 }

/-- Three targets of the loop, two of the CASE, one of the search and one of the string. -/
theorem Site.draft_closed_search :
  ∃ frame draft code,
    Yields (searchMethod.frame searchSite) [] frame []
    ∧ Yields (Site.draft { searchSite with scope := frame.scope } searchMethod.body) [] draft []
    ∧ draft.close.targets.length = 7 ∧ draft.strings = [(6, "Hi")]
    ∧ draft.close.jumpCount = 5 ∧ draft.close.offsetCount = 2 ∧ draft.Closed
    ∧ Yields (searchMethod.compile {} searchSite 8) []
      { code, localsSize := frame.localsSize, warnings := draft.warnings } []
  := by
  have hframe : (searchMethod.frame searchSite).run.run []
      = (.ok { scope := [("RESULT", 0)] }, []) := by
    rfl
  obtain ⟨draft, memo, hdraft, htargets, hstrings, hjumps, hoffsets, rfl⟩ :
      ∃ draft memo, Yields (Site.draft { searchSite with scope := [("RESULT", 0)] }
          searchMethod.body) [] draft memo
        ∧ draft.close.targets.length = 7 ∧ draft.strings = [(6, "Hi")]
        ∧ draft.close.jumpCount = 5 ∧ draft.close.offsetCount = 2 ∧ memo = [] := by
    decide +kernel
  obtain ⟨hclosed, _, _, hcompile⟩ := Site.draft_closed hdraft
  obtain ⟨_, hrounds⟩ := hcompile searchMethod {} searchSite 8 _ [] rfl rfl hframe
  obtain ⟨code, hcode⟩ := hrounds (by rw [hjumps, hoffsets]; decide)
  exact ⟨_, draft, code, hframe, hdraft, htargets, hstrings, hjumps, hoffsets, hclosed, hcode⟩

end SpinHub
