import MlxRuntime.Lib.Run
import MlxRuntime.Lib.Words

/-!
# Stop sequences

`_StopTextAssembler` gets the text of a response in chunks and cuts it before a stop sequence.
It holds back as many characters as may belong to a stop sequence that has not come to its end.

What it reports after a chunk is the first place of a stop sequence in the text so far.  A text
that is chunked in two ways may be cut at two places: where one stop sequence starts before
another and ends after it, a chunk that ends between the two ends shows the second alone.

## Main definitions

* `StopTextAssembler`, `StopTextAssembler.push`, `StopTextAssembler.finish` — the assembler.
* `StopTextAssembler.assemble` — a text in chunks.
* `HoldsBack` — what is emitted and what is held back, before the first hit and with it.
* `FirstCompletes` — the texts that are cut at one place, however they are chunked.
-/

namespace MlxRuntime

open Words

variable {α : Type} [DecidableEq α]

/-- Stop sequences; the runtime leaves the empty ones out. -/
structure StopSequences (α : Type) where
  words : List (List α)
  ne_nil : ∀ stop ∈ words, stop ≠ []

/-- `tuple(stop for stop in request.stop if stop)`. -/
def StopSequences.ofRequest (stop : List (List α)) : StopSequences α where
  words := stop.filter (· ≠ [])
  ne_nil _ hmem := of_decide_eq_true (List.mem_filter.mp hmem).2

/-- `_StopTextAssembler`. -/
structure StopTextAssembler (α : Type) where
  stopSequences : StopSequences α
  pending : List α := []
  emitted : List α := []

namespace StopTextAssembler

/-- The characters that are held back. -/
def hold (stops : StopSequences α) : ℕ := ((stops.words.map fun stop => stop.length - 1).max?).getD 0

/-- `push`; the answer is the chunk that is emitted, and whether a stop sequence was hit. -/
def push (text : List α) (a : StopTextAssembler α) : (List α × Bool) × StopTextAssembler α :=
  let pending := a.pending ++ text
  match firstOf a.stopSequences.words pending with
  | some index =>
      let chunk := pending.take index
      ((chunk, true), { a with pending := [], emitted := a.emitted ++ chunk })
  | none =>
      let hold := hold a.stopSequences
      if pending.length ≤ hold then (([], false), { a with pending := pending })
      else
        let chunk := pending.take (pending.length - hold)
        ((chunk, false), { a with
          pending := pending.drop (pending.length - hold)
          emitted := a.emitted ++ chunk })

/-- `finish`. -/
def finish (a : StopTextAssembler α) : List α × StopTextAssembler α :=
  (a.pending, { a with pending := [], emitted := a.emitted ++ a.pending })

/-- `text`. -/
def text (a : StopTextAssembler α) : List α := a.emitted ++ a.pending

/-- A text in chunks, up to the first hit or to its end: what is emitted, and whether there was
a hit. -/
def assemble : List (List α) → StopTextAssembler α → List α × Bool
  | [], a => (a.finish.1, false)
  | chunk :: chunks, a =>
      match a.push chunk with
      | ((emitted, true), _) => (emitted, true)
      | ((emitted, false), a) =>
          let (rest, hit) := assemble chunks a
          (emitted ++ rest, hit)

/-- The text up to the first chunk with which a stop sequence is there, cut before it; and
whether there was one. -/
def cut (words : List (List α)) : List α → List (List α) → List α × Bool
  | seen, [] => (seen, false)
  | seen, chunk :: chunks =>
      match firstOf words (seen ++ chunk) with
      | some i => ((seen ++ chunk).take i, true)
      | none => cut words (seen ++ chunk) chunks

/-! ## What the assembler is after a text -/

variable {stops : StopSequences α} {seen chunk : List α} {chunks : List (List α)}

/-- The assembler after a text without a stop sequence. -/
def after (stops : StopSequences α) (seen : List α) : StopTextAssembler α where
  stopSequences := stops
  pending := seen.drop (seen.length - hold stops)
  emitted := seen.take (seen.length - hold stops)

omit [DecidableEq α] in
theorem after_nil : after stops [] = { stopSequences := stops } := by
  simp [after]

omit [DecidableEq α] in
@[simp] theorem text_after : (after stops seen).text = seen := List.take_append_drop _ _

omit [DecidableEq α] in
theorem length_le_hold {stop : List α} (h : stop ∈ stops.words) :
    stop.length ≤ hold stops + 1 := by
  have hmem : stop.length - 1 ∈ stops.words.map fun stop => stop.length - 1 :=
    List.mem_map_of_mem h
  rw [hold]
  cases hmax : (stops.words.map fun stop => stop.length - 1).max? with
  | none =>
      rw [List.max?_eq_none_iff] at hmax
      rw [hmax] at hmem
      cases hmem
  | some hold =>
      have hle := (List.max?_eq_some_iff.mp hmax).2 _ hmem
      simp only [Option.getD_some]
      omega

omit [DecidableEq α] in
theorem pending_append (chunk : List α) : (after stops seen).pending ++ chunk =
    (seen ++ chunk).drop (seen.length - hold stops) :=
  (List.drop_append_of_le_length (by omega)).symm

omit [DecidableEq α] in
theorem emitted_append (chunk : List α) : (after stops seen).emitted =
    (seen ++ chunk).take (seen.length - hold stops) :=
  (List.take_append_of_le_length (by omega)).symm

/-- What a chunk completes is among the characters that are held back. -/
theorem firstOf_pending (hseen : firstOf stops.words seen = none) :
    firstOf stops.words (seen ++ chunk) = (firstOf stops.words
      ((after stops seen).pending ++ chunk)).map (seen.length - hold stops + ·) := by
  rw [pending_append]
  refine firstOf_drop stops.ne_nil fun stop hstop i hoccurs => ?_
  by_contra hlt
  have hlength := length_le_hold hstop
  exact (firstOf_eq_none stops.ne_nil).mp hseen stop hstop i (hoccurs.of_append chunk (by omega))

/-- A chunk that completes a stop sequence cuts the text. -/
theorem push_of_some (hseen : firstOf stops.words seen = none) {i : ℕ}
    (h : firstOf stops.words (seen ++ chunk) = some i) : ∃ emitted,
    (after stops seen).push chunk = ((emitted, true), {
      stopSequences := stops
      emitted := (seen ++ chunk).take i }) ∧
      (after stops seen).emitted ++ emitted = (seen ++ chunk).take i := by
  rw [firstOf_pending hseen] at h
  obtain ⟨index, hindex, rfl⟩ := Option.map_eq_some_iff.mp h
  have htake : (after stops seen).emitted ++ ((after stops seen).pending ++ chunk).take index =
      (seen ++ chunk).take (seen.length - hold stops + index) := by
    rw [List.take_add, pending_append, emitted_append chunk]
  refine ⟨((after stops seen).pending ++ chunk).take index, ?_, htake⟩
  simp only [push, show (after stops seen).stopSequences = stops from rfl, hindex, htake]

/-- A chunk that does not is added to the text. -/
theorem push_of_none (hseen : firstOf stops.words seen = none)
    (h : firstOf stops.words (seen ++ chunk) = none) : ∃ emitted,
    (after stops seen).push chunk = ((emitted, false), after stops (seen ++ chunk)) ∧
      (after stops seen).emitted ++ emitted = (after stops (seen ++ chunk)).emitted := by
  rw [firstOf_pending hseen, Option.map_eq_none_iff, pending_append] at h
  have hemitted : (after stops seen).emitted =
      (seen ++ chunk).take (seen.length - hold stops) := emitted_append chunk
  simp only [push, show (after stops seen).stopSequences = stops from rfl, pending_append, h,
    hemitted, List.length_drop]
  split
  · rename_i hle
    -- nothing is emitted, and nothing more is held back
    have hsame : seen.length - hold stops = (seen ++ chunk).length - hold stops := by
      rw [List.length_append] at hle ⊢
      omega
    refine ⟨[], ?_, ?_⟩
    · rw [hsame]
      rfl
    · rw [hsame, List.append_nil]
      rfl
  · rename_i hlt
    have hsum : seen.length - hold stops +
        ((seen ++ chunk).length - (seen.length - hold stops) - hold stops) =
          (seen ++ chunk).length - hold stops := by
      rw [List.length_append] at hlt ⊢
      omega
    refine ⟨_, Prod.ext rfl ?_, ?_⟩
    · simp only [after, List.drop_drop, ← List.take_add, hsum]
    · rw [← List.take_add, hsum]
      rfl

/-! ## Texts in chunks -/

/-- **A text in chunks**, after a text without a stop sequence: it is cut before the first stop
sequence that is there when the first one is complete. -/
theorem assemble_after (chunks : List (List α)) (hseen : firstOf stops.words seen = none) :
    (after stops seen).emitted ++ (assemble chunks (after stops seen)).1 =
        (cut stops.words seen chunks).1 ∧
      (assemble chunks (after stops seen)).2 = (cut stops.words seen chunks).2 := by
  induction chunks generalizing seen with
  | nil => exact ⟨text_after, rfl⟩
  | cons chunk chunks ih =>
      rw [assemble, cut]
      cases hfirst : firstOf stops.words (seen ++ chunk) with
      | some i =>
          obtain ⟨emitted, hpush, htake⟩ := push_of_some hseen hfirst
          simp only [hpush]
          exact ⟨htake, trivial⟩
      | none =>
          obtain ⟨emitted, hpush, hemitted⟩ := push_of_none hseen hfirst
          obtain ⟨htext, hhit⟩ := ih hfirst
          simp only [hpush]
          exact ⟨by rw [← List.append_assoc, hemitted, htext], hhit⟩

/-- A text in chunks. -/
theorem assemble_eq (stops : StopSequences α) (chunks : List (List α)) :
    assemble chunks { stopSequences := stops } = cut stops.words [] chunks := by
  obtain ⟨htext, hhit⟩ := assemble_after chunks (firstOf_nil stops.ne_nil)
  rw [after_nil] at htext hhit
  exact Prod.ext htext hhit

omit [DecidableEq α] in
@[simp] theorem stopSequences_after : (after stops seen).stopSequences = stops := rfl

/-- What was emitted before plays no part, and what is emitted is added to it. -/
theorem push_emitted (text e : List α) (a : StopTextAssembler α) :
    push text { a with emitted := e } =
      ((a.push text).1, { (a.push text).2 with emitted := e ++ (a.push text).1.1 }) := by
  simp only [push]
  split
  · rfl
  · split
    · simp only [List.append_nil]
    · rfl

theorem pending_of_hit {text : List α} {a : StopTextAssembler α} (h : (a.push text).1.2 = true) :
    (a.push text).2.pending = [] := by
  simp only [push] at h ⊢
  split
  · rfl
  · rename_i hnone
    simp only [hnone] at h
    split at h <;> cases h

theorem assemble_emitted (chunks : List (List α)) (e : List α) (a : StopTextAssembler α) :
    assemble chunks { a with emitted := e } = assemble chunks a := by
  induction chunks generalizing a e with
  | nil => rfl
  | cons chunk chunks ih =>
      simp only [assemble, push_emitted]
      generalize a.push chunk = pushed
      obtain ⟨⟨emitted, _ | _⟩, a'⟩ := pushed
      · simp only [ih]
      · rfl

/-- There is a hit when the text has a stop sequence. -/
theorem cut_snd (hseen : firstOf stops.words seen = none) :
    (cut stops.words seen chunks).2 = (firstOf stops.words (seen ++ chunks.flatten)).isSome := by
  induction chunks generalizing seen with
  | nil => simp [cut, hseen]
  | cons chunk chunks ih =>
      rw [cut, List.flatten_cons, ← List.append_assoc]
      cases hfirst : firstOf stops.words (seen ++ chunk) with
      | some i =>
          obtain ⟨j, -, hj⟩ := firstOf_append_le stops.ne_nil hfirst chunks.flatten
          rw [hj]
          rfl
      | none => exact ih hfirst

theorem cut_append (words : List (List α)) (seen : List α) (chunks more : List (List α)) :
    cut words seen (chunks ++ more) = if (cut words seen chunks).2 then cut words seen chunks
      else cut words (seen ++ chunks.flatten) more := by
  induction chunks generalizing seen with
  | nil => simp [cut]
  | cons chunk chunks ih =>
      rw [List.cons_append, cut, cut, List.flatten_cons, ← List.append_assoc]
      cases firstOf words (seen ++ chunk) with
      | some i => rfl
      | none => exact ih (seen ++ chunk)

/-- What is cut has no stop sequence. -/
theorem not_isInfix_cut (chunks : List (List α)) (hseen : firstOf stops.words seen = none)
    {stop : List α} (hstop : stop ∈ stops.words) : ¬ stop <:+: (cut stops.words seen chunks).1 := by
  induction chunks generalizing seen with
  | nil =>
      rw [cut, isInfix_iff]
      rintro ⟨i, hoccurs⟩
      exact (firstOf_eq_none stops.ne_nil).mp hseen stop hstop i hoccurs
  | cons chunk chunks ih =>
      rw [cut]
      cases hfirst : firstOf stops.words (seen ++ chunk) with
      | none => exact ih hfirst
      | some i =>
          rw [isInfix_iff]
          rintro ⟨j, hoccurs⟩
          have hne := stops.ne_nil stop hstop
          obtain ⟨hoccurs, hle⟩ := (occursAt_take hne).mp hoccurs
          have hleast := ((firstOf_eq_some stops.ne_nil).mp hfirst).2 stop hstop j hoccurs
          have hpos := List.length_pos_iff.mpr hne
          omega

/-- Nothing is left of a chunk that starts with a stop sequence. -/
theorem cut_singleton_eq_nil :
    (cut stops.words [] [chunk]).1 = [] ↔ chunk = [] ∨ ∃ stop ∈ stops.words, stop <+: chunk := by
  rw [cut, List.nil_append]
  cases hfirst : firstOf stops.words chunk with
  | none =>
      refine ⟨.inl, ?_⟩
      rintro (hnil | ⟨stop, hstop, hinitial⟩)
      · exact hnil
      · exact absurd hinitial ((firstOf_eq_none stops.ne_nil).mp hfirst stop hstop 0)
  | some i =>
      obtain ⟨⟨w, hw, hoccurs⟩, hleast⟩ := (firstOf_eq_some stops.ne_nil).mp hfirst
      have hlt := firstOf_le_length stops.ne_nil hfirst
      have hne : chunk ≠ [] := List.length_pos_iff.mp (by omega)
      rw [List.take_eq_nil_iff, or_iff_left hne, or_iff_right hne]
      constructor
      · rintro rfl
        exact ⟨w, hw, hoccurs⟩
      · rintro ⟨stop, hstop, hinitial⟩
        exact Nat.le_zero.mp (hleast stop hstop 0 hinitial)

/-! ## What is held back -/

/-- A chunk that the assembler gets. -/
abbrev step (a : StopTextAssembler α) (chunk : List α) :
    (List α × Bool) × StopTextAssembler α := a.push chunk

/-- What an assembler should be after a text without a hit: nothing is lost, what is emitted
does not end inside a stop sequence that is completed later, and the next chunk is a hit just
when a stop sequence is there with it. -/
structure HoldsBack (stops : StopSequences α) (seen : List α) (a : StopTextAssembler α) :
    Prop where
  text_eq : a.emitted ++ a.pending = seen
  no_stop : ∀ stop ∈ stops.words, ¬ stop <:+: seen
  outside : ∀ stop ∈ stops.words, ∀ more i, OccursAt stop (seen ++ more) i →
    ¬ (i < a.emitted.length ∧ a.emitted.length < i + stop.length)
  hit_iff : ∀ chunk, (a.push chunk).1.2 = true ↔ ∃ stop ∈ stops.words, stop <:+: seen ++ chunk
  hit : ∀ chunk, (a.push chunk).1.2 = true → ∃ i,
    (a.push chunk).2 = { stopSequences := stops, emitted := (seen ++ chunk).take i } ∧
      a.emitted ++ (a.push chunk).1.1 = (seen ++ chunk).take i ∧
      (∃ stop ∈ stops.words, OccursAt stop (seen ++ chunk) i) ∧
      ∀ stop ∈ stops.words, ∀ j, OccursAt stop (seen ++ chunk) j → i ≤ j
  finish_eq : a.emitted ++ a.finish.1 = seen

/-- A text has a stop sequence where it has a first one. -/
theorem exists_isInfix_iff {text : List α} :
    (∃ stop ∈ stops.words, stop <:+: text) ↔ (firstOf stops.words text).isSome := by
  constructor
  · rintro ⟨stop, hstop, hinfix⟩
    obtain ⟨i, hoccurs⟩ := isInfix_iff.mp hinfix
    cases hfirst : firstOf stops.words text with
    | none => exact absurd hoccurs ((firstOf_eq_none stops.ne_nil).mp hfirst stop hstop i)
    | some i => rfl
  · intro hsome
    obtain ⟨i, hfirst⟩ := Option.isSome_iff_exists.mp hsome
    obtain ⟨⟨stop, hstop, hoccurs⟩, -⟩ := (firstOf_eq_some stops.ne_nil).mp hfirst
    exact ⟨stop, hstop, isInfix_iff.mpr ⟨i, hoccurs⟩⟩

theorem push_hit_iff (hseen : firstOf stops.words seen = none) :
    ((after stops seen).push chunk).1.2 = true ↔
      ∃ stop ∈ stops.words, stop <:+: seen ++ chunk := by
  rw [exists_isInfix_iff]
  cases hfirst : firstOf stops.words (seen ++ chunk) with
  | some i =>
      obtain ⟨emitted, hpush, -⟩ := push_of_some hseen hfirst
      simp [hpush]
  | none =>
      obtain ⟨emitted, hpush, -⟩ := push_of_none hseen hfirst
      simp [hpush]

/-- What is emitted ends where every stop sequence that has begun is complete. -/
theorem emitted_outside (hseen : firstOf stops.words seen = none) {stop : List α}
    (hstop : stop ∈ stops.words) (more : List α) {i : ℕ} (h : OccursAt stop (seen ++ more) i) :
    ¬ (i < (after stops seen).emitted.length ∧
      (after stops seen).emitted.length < i + stop.length) := by
  rintro ⟨hbegun, -⟩
  have hlength := length_le_hold hstop
  have hemitted : (after stops seen).emitted.length = seen.length - hold stops := by
    rw [after, List.length_take]
    omega
  rw [hemitted] at hbegun
  exact (firstOf_eq_none stops.ne_nil).mp hseen stop hstop i (h.of_append more (by omega))

theorem holdsBack_after (hseen : firstOf stops.words seen = none) :
    HoldsBack stops seen (after stops seen) where
  text_eq := text_after
  no_stop := by
    intro stop hstop hinfix
    obtain ⟨i, hoccurs⟩ := isInfix_iff.mp hinfix
    exact (firstOf_eq_none stops.ne_nil).mp hseen stop hstop i hoccurs
  outside := fun stop hstop more i => emitted_outside hseen hstop more
  hit_iff := fun chunk => push_hit_iff hseen
  hit := by
    intro chunk hhit
    obtain ⟨i, hfirst⟩ :=
      Option.isSome_iff_exists.mp (exists_isInfix_iff.mp ((push_hit_iff hseen).mp hhit))
    obtain ⟨emitted, hpush, htake⟩ := push_of_some hseen hfirst
    obtain ⟨hthere, hleast⟩ := (firstOf_eq_some stops.ne_nil).mp hfirst
    rw [hpush]
    exact ⟨i, rfl, htake, hthere, hleast⟩
  finish_eq := text_after

/-- Chunks without a hit, one after another. -/
theorem exec_after (hseen : firstOf stops.words seen = none)
    (hquiet : ∀ reply ∈ Run.replies step (after stops seen) chunks, reply.2 = false) :
    Run.exec step (after stops seen) chunks = after stops (seen ++ chunks.flatten) ∧
      firstOf stops.words (seen ++ chunks.flatten) = none ∧
      (after stops seen).emitted ++
        ((Run.replies step (after stops seen) chunks).map Prod.fst).flatten =
          (after stops (seen ++ chunks.flatten)).emitted := by
  induction chunks generalizing seen with
  | nil => simpa [Run.replies] using hseen
  | cons chunk chunks ih =>
      rw [Run.replies, List.forall_mem_cons] at hquiet
      obtain ⟨hpushed, hquiet⟩ := hquiet
      have hnext : firstOf stops.words (seen ++ chunk) = none := by
        rw [← Option.not_isSome_iff_eq_none, ← exists_isInfix_iff, ← push_hit_iff hseen, hpushed]
        exact Bool.false_ne_true
      obtain ⟨emitted, hpush, hemitted⟩ := push_of_none hseen hnext
      have hstep : (after stops seen).step chunk =
          ((emitted, false), after stops (seen ++ chunk)) := hpush
      rw [hstep] at hquiet
      obtain ⟨hexec, hnone, hall⟩ := ih hnext hquiet
      rw [List.flatten_cons, ← List.append_assoc]
      refine ⟨?_, hnone, ?_⟩
      · rw [Run.exec_cons, hstep, hexec]
      · rw [Run.replies, hstep, List.map_cons, List.flatten_cons, ← List.append_assoc, hemitted,
          hall]

/-- **Hold-back.**  As long as no chunk was a hit, what the chunks emitted and what is pending
is the text, and the assembler holds back what it should. -/
theorem holds_back (stops : StopSequences α) (chunks : List (List α))
    (hquiet : ∀ reply ∈ Run.replies step { stopSequences := stops } chunks, reply.2 = false) :
    ((Run.replies step { stopSequences := stops } chunks).map Prod.fst).flatten =
        (Run.exec step { stopSequences := stops } chunks).emitted ∧
      HoldsBack stops chunks.flatten (Run.exec step { stopSequences := stops } chunks) := by
  rw [← after_nil] at hquiet ⊢
  obtain ⟨hexec, hnone, hall⟩ := exec_after (firstOf_nil stops.ne_nil) hquiet
  rw [List.nil_append] at hexec hnone hall
  have hnil : (after stops []).emitted = [] := by rw [after_nil]
  rw [hnil, List.nil_append] at hall
  rw [hexec]
  exact ⟨hall, holdsBack_after hnone⟩

/-! ## How a text is chunked -/

/-- Wherever the text is broken off, what is left has the first stop sequence of the text, or
none: no stop sequence is complete before one that starts earlier. -/
def FirstCompletes (stops : StopSequences α) (text : List α) : Prop :=
  ∀ e, firstOf stops.words (text.take e) = none ∨
    firstOf stops.words (text.take e) = firstOf stops.words text

/-- The place of the cut does not depend on the chunks. -/
theorem cut_of_firstCompletes {text : List α} (h : FirstCompletes stops text)
    (htext : seen ++ chunks.flatten = text) (hseen : firstOf stops.words seen = none) :
    cut stops.words seen chunks =
      (((firstOf stops.words text).map text.take).getD text, (firstOf stops.words text).isSome) := by
  induction chunks generalizing seen with
  | nil =>
      rw [List.flatten_nil, List.append_nil] at htext
      subst htext
      simp [cut, hseen]
  | cons chunk chunks ih =>
      rw [List.flatten_cons, ← List.append_assoc] at htext
      rw [cut]
      cases hfirst : firstOf stops.words (seen ++ chunk) with
      | none => exact ih htext hfirst
      | some i =>
          have htake : text.take (seen ++ chunk).length = seen ++ chunk := by
            rw [← htext, List.take_left]
          have hsame : firstOf stops.words text = some i := by
            rcases h (seen ++ chunk).length with hnone | hsame
            · rw [htake, hfirst] at hnone
              cases hnone
            · rw [← hsame, htake, hfirst]
          have hlt := firstOf_le_length stops.ne_nil hfirst
          simp only [hsame, Option.map_some, Option.getD_some, Option.isSome_some]
          rw [← htext, List.take_append_of_le_length hlt.le]

/-- It is enough that the stop sequences are such texts: that a stop sequence with another one
inside it starts with one that is complete no later. -/
theorem firstCompletes_iff (stops : StopSequences α) :
    (∀ text, FirstCompletes stops text) ↔ ∀ stop ∈ stops.words, FirstCompletes stops stop := by
  constructor
  · intro h stop _
    exact h stop
  intro h text e
  cases hfirst : firstOf stops.words (text.take e) with
  | none => exact .inl rfl
  | some i =>
      refine .inr ?_
      obtain ⟨j, hle, hj⟩ := firstOf_append_le stops.ne_nil hfirst (text.drop e)
      rw [List.take_append_drop] at hj
      rw [hj]
      obtain ⟨⟨v, hv, hvat⟩, hleast⟩ := (firstOf_eq_some stops.ne_nil).mp hfirst
      obtain ⟨⟨s, hs, hsat⟩, -⟩ := (firstOf_eq_some stops.ne_nil).mp hj
      obtain ⟨hvtext, hvend⟩ := (occursAt_take (stops.ne_nil v hv)).mp hvat
      by_contra hne
      have hlt : j < i := by
        have : i ≠ j := fun heq => hne (congrArg some heq)
        omega
      -- the earlier one is not complete
      have hopen : e < j + s.length := by
        by_contra hcomplete
        have := hleast s hs j ((occursAt_take (stops.ne_nil s hs)).mpr ⟨hsat, by omega⟩)
        omega
      -- so the other one is inside it
      have hinside : OccursAt v s (i - j) := by
        have hsdrop := List.IsPrefix.drop hsat (i - j)
        rw [List.drop_drop, Nat.add_sub_cancel' hle] at hsdrop
        refine List.prefix_of_prefix_length_le hvtext hsdrop ?_
        rw [List.length_drop]
        omega
      have htaken : OccursAt v (s.take (e - j)) (i - j) :=
        (occursAt_take (stops.ne_nil v hv)).mpr ⟨hinside, by omega⟩
      have hself : firstOf stops.words s = some 0 := by
        rw [firstOf_eq_some stops.ne_nil]
        exact ⟨⟨s, hs, List.prefix_rfl⟩, fun _ _ _ _ => Nat.zero_le _⟩
      rcases h s hs (e - j) with hnone | hsame
      · exact (firstOf_eq_none stops.ne_nil).mp hnone v hv _ htaken
      · rw [hself] at hsame
        obtain ⟨⟨u, hu, huat⟩, -⟩ := (firstOf_eq_some stops.ne_nil).mp hsame
        obtain ⟨hus, huend⟩ := (occursAt_take (stops.ne_nil u hu)).mp huat
        have := hleast u hu j ((occursAt_take (stops.ne_nil u hu)).mpr
          ⟨List.IsPrefix.trans hus hsat, by omega⟩)
        omega

/-- **The cut does not depend on the chunks** just when the first stop sequence of the text is
complete first. -/
theorem chunks_independent (stops : StopSequences α) (text : List α) :
    (∀ chunks chunks' : List (List α), chunks.flatten = text → chunks'.flatten = text →
      assemble chunks { stopSequences := stops } = assemble chunks' { stopSequences := stops }) ↔
    FirstCompletes stops text := by
  constructor
  · intro h e
    cases hfirst : firstOf stops.words (text.take e) with
    | none => exact .inl rfl
    | some i =>
        obtain ⟨j, -, hj⟩ := firstOf_append_le stops.ne_nil hfirst (text.drop e)
        rw [List.take_append_drop] at hj
        have heq := congrArg Prod.fst (h [text.take e, text.drop e] [text] (by simp) (by simp))
        simp only [assemble_eq, cut, List.nil_append, hfirst, hj] at heq
        have hi := firstOf_le_length stops.ne_nil hfirst
        have hj' := firstOf_le_length stops.ne_nil hj
        have hlength := congrArg List.length heq
        rw [List.length_take_of_le hi.le, List.length_take_of_le hj'.le] at hlength
        exact .inr (by rw [hj, hlength])
  · intro h chunks chunks' hchunks hchunks'
    have hnil := firstOf_nil stops.ne_nil
    rw [assemble_eq, assemble_eq, cut_of_firstCompletes h (by simpa using hchunks) hnil,
      cut_of_firstCompletes h (by simpa using hchunks') hnil]

/-- Two stop sequences, the second inside the first. -/
def nestedStops : StopSequences Char where
  words := ["abc".toList, "b".toList]
  ne_nil := by decide

/-- A text that is the first of them is cut at its start; when its last character comes later, it
is cut before the second one. -/
theorem chunks_matter : ¬ ∀ chunks chunks' : List (List Char), chunks.flatten = "abc".toList →
    chunks'.flatten = "abc".toList → assemble chunks { stopSequences := nestedStops } =
      assemble chunks' { stopSequences := nestedStops } := by
  intro h
  have hwhole : assemble ["abc".toList] { stopSequences := nestedStops } = ([], true) := by
    decide
  have hsplit : assemble ["ab".toList, "c".toList] { stopSequences := nestedStops } =
      (['a'], true) := by decide
  have hsame := h ["abc".toList] ["ab".toList, "c".toList] rfl rfl
  rw [hwhole, hsplit] at hsame
  cases hsame

/-- A text that may yet become the first of them is held back. -/
theorem holds_back_nested : HoldsBack nestedStops "xa".toList
    (Run.exec step { stopSequences := nestedStops } ["x".toList, "a".toList]) :=
  (holds_back nestedStops ["x".toList, "a".toList] (by decide)).2

end StopTextAssembler
end MlxRuntime
