import Courier.Proofs.Parser.Unlimited
import Mathlib.Data.List.TakeWhile

/-!
# The limit on nesting

A parse with a limit goes as the parse without one until a production would be nested too deeply. Then it fails, and nothing takes the
failure back: no production is entered by a lookahead, and a production whose body fails fails itself. `Limited` says this of two runs
that start in one state, by the productions that were entered; `limited_parse` proves it of every rule, by induction on the room.
-/

namespace Courier

/-- The production is nested in a limit. -/
def Entry.fits (limit : Nat) (e : Entry) : Bool :=
  e.constructs.length ≤ limit

/-- The failure of a parse that does not enter a production, as it would be nested too deeply. -/
structure ParseError.Refuses (e : ParseError) (entry : Entry) (trace : Bool) : Prop where
  fault : e.fault = .nestedTooDeeply
  location : e.location = entry.place
  constructs : e.constructs = if trace then entry.constructs.tail.reverse else []

namespace Parser

variable {I J : Inner} {c : Construct} {moved moves : Bool} {α β : Type} {m n : Parser α} {s : ParserState} {limit : Nat}

/-- What a limit makes of a run from the state `s` that would end as `free`: it ends as `bound`. Either all productions that were
entered fit, and it is the same end, or it fails where the first one that does not fit would have been entered. -/
inductive Limited (limit : Nat) (s : ParserState) (free bound : Ending α) : Prop
  | within (new : List Entry) (hlog : free.state.entered = new ++ s.entered) (hnew : ∀ e ∈ new, e.fits limit) (h : bound = free)
  | beyond (earlier : List Entry) (entry : Entry) (e : ParseError) (t : ParserState)
    (hlog : entry :: (earlier ++ s.entered) <:+ free.state.entered) (hearlier : ∀ e ∈ earlier, e.fits limit)
    (hentry : entry.constructs.length = limit + 1) (h : bound = .error e t) (ht : t.entered = earlier ++ s.entered)
    (he : e.Refuses entry s.traces)

/-! ## Sequences and the guard -/

/-- An operation is not limited. -/
theorem limited_of_entered {free : Ending α} (h : free.state.entered = s.entered) : Limited limit s free free :=
  .within [] h (fun _ he => nomatch he) rfl

theorem Limited.bind {f g : α → Parser β} (h : Limited limit s (m s) (n s))
    (hgrow : ∀ a t, t.entered <:+ (Ending.state (f a t)).entered)
    (hf : ∀ a t, m s = .ok a t → t.traces = s.traces ∧ Limited limit t (f a t) (g a t)) :
    Limited limit s ((m >>= f) s) ((n >>= g) s) := by
  simp only [Bind.bind, EStateM.bind]
  cases h with
  | within new hlog hnew h =>
    rw [h]
    cases hm : m s with
    | error e t =>
      rw [hm] at hlog
      exact .within new hlog hnew rfl
    | ok a t =>
      rw [hm] at hlog
      have ht : t.entered = new ++ s.entered := hlog
      obtain ⟨htraces, hrest⟩ := hf a t hm
      cases hrest with
      | within new' hlog' hnew' h' =>
        refine .within (new' ++ new) (by rw [hlog', ht, List.append_assoc]) (fun e he => ?_) h'
        exact (List.mem_append.1 he).elim (hnew' e) (hnew e)
      | beyond earlier entry e u hlog' hearlier hentry h' hu he =>
        rw [ht, ← List.append_assoc] at hlog' hu
        refine .beyond (earlier ++ new) entry e u hlog' (fun e he => ?_) hentry h' hu (htraces ▸ he)
        exact (List.mem_append.1 he).elim (hearlier e) (hnew e)
  | beyond earlier entry e u hlog hearlier hentry h hu he =>
    rw [h]
    refine .beyond earlier entry e u ?_ hearlier hentry rfl hu he
    cases hm : m s with
    | error e' t =>
      rw [hm] at hlog
      exact hlog
    | ok a t =>
      rw [hm] at hlog
      exact hlog.trans (hgrow a t)

/-- A guard enters one production, and its body enters the others. -/
theorem entered_guarded : (Ending.state (guarded c m s)).entered = (Ending.state (m (s.enter c))).entered := by
  unfold guarded
  cases m (s.enter c) with
  | error e t => rfl
  | ok a t =>
    dsimp only
    split <;> rfl

/-- Where a production fits, its guard is limited as its body is. -/
theorem Limited.guarded (hfits : s.constructs.length < limit) (h : Limited limit (s.enter c) (m (s.enter c)) (n (s.enter c))) :
    Limited limit s (guarded c m s) (guarded c n s) := by
  have hentered : (s.enter c).entered = [⟨c :: s.constructs, s.here⟩] ++ s.entered := rfl
  have hentry : ∀ e ∈ [(⟨c :: s.constructs, s.here⟩ : Entry)], e.fits limit := by
    simpa [Entry.fits] using Nat.succ_le_of_lt hfits
  cases h with
  | within new hlog hnew h =>
    refine .within (new ++ [⟨c :: s.constructs, s.here⟩]) ?_ (fun e he => ?_) (guarded_congr h)
    · rw [entered_guarded, hlog, hentered, List.append_assoc]
    · exact (List.mem_append.1 he).elim (hnew e) (hentry e)
  | beyond earlier entry e t hlog hearlier hdeep h ht he =>
    have habandon : (t.abandon s.checkpoint).2.entered = t.entered := rfl
    rw [hentered, ← List.append_assoc] at hlog ht
    refine .beyond (earlier ++ [⟨c :: s.constructs, s.here⟩]) entry _ _ ?_ (fun e he => ?_) hdeep (guarded_eq_abandon h)
      (habandon.trans ht) ⟨he.fault, he.location, he.constructs⟩
    · rw [entered_guarded]
      exact hlog
    · exact (List.mem_append.1 he).elim (hearlier e) (hentry e)

/-! ## Every rule -/

/-- A parser that leads onward forgets no production that was entered, however it ends. -/
theorem Advances.entered (h : Advances moves m) (s : ParserState) : s.entered <:+ (Ending.state (m s)).entered := by
  cases hm : m s with
  | ok a t => exact ((h s).ok hm).entered
  | error e t => exact (h s).error hm

theorem Elementary.entered (h : Elementary moves m) (s : ParserState) : (Ending.state (m s)).entered = s.entered := by
  cases hm : m s with
  | ok a t => exact ((h.yields s).ok hm).1
  | error e t => exact ((h.yields s).error hm).1

/-- What is put together from productions without a limit is limited as they are. -/
theorem Assembled.limited {room : Nat} (h : Assembled .unlimited J c moved moves m n)
    (hJ : ∀ {α : Type} (r : Rule α) (t : ParserState), t.constructs.length + room = limit → Limited limit t (r.run t) (J.parse r t))
    (s : ParserState) (hs : s.constructs.length + room = limit) : Limited limit s (m s) (n s) := by
  induction h generalizing s with
  | elementary h => exact limited_of_entered (h.entered s)
  | blame _ _ _ => exact limited_of_entered rfl
  | call r _ => exact hJ r s hs
  | seq hm hf ih ihf | after hm hf ih ihf =>
    refine (ih s hs).bind (fun a t => ((hf a).advances Rule.advances_run).entered t) (fun a t ht => ?_)
    have hwithin := ((hm.advances Rule.advances_run s).ok ht).toWithin
    exact ⟨hwithin.traces, ihf a t (hwithin.constructs ▸ hs)⟩
  | loose _ ih => exact ih s hs

/-- With the room that a limit leaves, every rule is limited. -/
theorem limited_parse {room : Nat} (r : Rule α) (s : ParserState) (h : s.constructs.length + room = limit) :
    Limited limit s (r.run s) (Rule.parse room r s) := by
  induction room generalizing α s with
  | zero =>
    have hbody := (assembled_body (I := .unlimited) (J := .unlimited) r).advances Rule.advances_run
    have hdeep : (r.construct :: s.constructs).length = limit + 1 := by simpa using h
    refine .beyond [] ⟨r.construct :: s.constructs, s.here⟩ _ s ?_ (fun _ he => nomatch he) hdeep rfl rfl ⟨rfl, rfl, rfl⟩
    rw [Rule.run_eq, entered_guarded]
    exact hbody.entered (s.enter r.construct)
  | succ room ih =>
    rw [Rule.run_eq]
    refine Limited.guarded (by omega) ?_
    refine (assembled_body r).limited (fun r t ht => ih r t ht) (s.enter r.construct) ?_
    have hlength : (s.enter r.construct).constructs.length = s.constructs.length + 1 := rfl
    omega

/-! ## The productions that were entered -/

/-- The first production that does not fit ends what is entered with a limit. -/
theorem Limited.entered_eq {free bound : Ending α} (h : Limited limit s free bound) (hs : s.entered = []) :
    bound.state.entered.reverse = free.state.entered.reverse.takeWhile (Entry.fits limit) := by
  cases h with
  | within new hlog hnew h =>
    rw [hs, List.append_nil] at hlog
    have hfits : ∀ e ∈ new.reverse, e.fits limit := fun e he => hnew e (List.mem_reverse.1 he)
    rw [h, hlog, List.takeWhile_eq_self_iff.2 hfits]
  | beyond earlier entry e t hlog hearlier hentry h ht he =>
    rw [hs, List.append_nil] at hlog ht
    obtain ⟨later, hlater⟩ := hlog
    have hfits : ∀ e ∈ earlier.reverse, e.fits limit := fun e he => hearlier e (List.mem_reverse.1 he)
    have hdeep : ¬ entry.fits limit = true := by simp [Entry.fits, hentry]
    rw [h, Ending.state, ht, ← hlater, List.reverse_append, List.reverse_cons, List.append_assoc,
      List.takeWhile_append_of_pos hfits, List.singleton_append, List.takeWhile_cons_of_neg hdeep, List.append_nil]

/-- Where all that is entered without a limit fits, the limit changes nothing. Otherwise the first production that does not fit is
refused. -/
theorem Limited.ends {free bound : Ending α} (h : Limited limit s free bound) (hs : s.entered = []) :
    match free.state.entered.reverse.find? (fun e => !e.fits limit) with
    | none => bound = free
    | some entry => entry.constructs.length = limit + 1 ∧ ∃ e t, bound = .error e t ∧ e.Refuses entry s.traces := by
  cases h with
  | within new hlog hnew h =>
    rw [hs, List.append_nil] at hlog
    have hfind : new.reverse.find? (fun e => !e.fits limit) = none := by
      rw [List.find?_eq_none]
      intro e he
      simp [hnew e (List.mem_reverse.1 he)]
    rw [hlog, hfind]
    exact h
  | beyond earlier entry e t hlog hearlier hentry h ht he =>
    rw [hs, List.append_nil] at hlog
    obtain ⟨later, hlater⟩ := hlog
    have hfind : (earlier.reverse ++ ([entry] ++ later.reverse)).find? (fun e => !e.fits limit) = some entry := by
      have hnone : earlier.reverse.find? (fun e => !e.fits limit) = none := by
        rw [List.find?_eq_none]
        intro e he
        simp [hearlier e (List.mem_reverse.1 he)]
      rw [List.find?_append, hnone]
      simp [Entry.fits, hentry]
    rw [← hlater, List.reverse_append, List.reverse_cons, List.append_assoc, hfind]
    exact ⟨hentry, e, t, h, he⟩

end Parser

/-! ## Whole parses -/

namespace Stream

open Courier.Parser

/-- Parses a stream from its beginning, without a limit on nesting. -/
def parseUnlimited (s : Stream) (trace : Bool) : Except ParseError Tree × Stream :=
  Ending.report (Rule.unit.run (.initial s trace))

/-- The productions that a parse without a limit enters, in order. -/
def entries (s : Stream) (trace : Bool) : List Entry :=
  (Ending.state (Rule.unit.run (.initial s trace))).entered.reverse

/-- The productions that a parse with a limit enters, in order. -/
def entriesWithin (limit : Nat) (s : Stream) (trace : Bool) : List Entry :=
  (Ending.state (Rule.unit.parse limit (.initial s trace))).entered.reverse

/-- The limit on nesting does nothing but this. The productions that a parse enters are those that a parse without a limit enters before
the first one that is nested too deeply. If there is none, the two parses end alike; otherwise the parse fails where that production
would have been entered, inside of as many others as the limit allows. The parse without a limit is the one solution of the equations of
the grammar in which a production runs its body whatever the depth is. -/
theorem parse_limit (s : Stream) (trace : Bool) :
    (∀ I : Inner, (∀ {α : Type} (r : Rule α), I.parse r = guarded r.construct (r.body I)) ↔ I = .unlimited) ∧
    s.entriesWithin maxNesting trace = (s.entries trace).takeWhile (Entry.fits maxNesting) ∧
    (∀ e ∈ s.entriesWithin maxNesting trace, e.constructs.length ≤ maxNesting) ∧
    match (s.entries trace).find? (fun e => !e.fits maxNesting) with
    | none => s.parse trace = s.parseUnlimited trace
    | some entry => entry.constructs.length = maxNesting + 1 ∧ ∃ e rest, s.parse trace = (.error e, rest) ∧
        e.message = "expression nested too deeply" ∧ e.location = entry.place ∧
        e.constructs = if trace then entry.constructs.tail.reverse else [] := by
  have hlimited : Limited maxNesting (.initial s trace) (Rule.unit.run (.initial s trace))
      (Rule.unit.parse maxNesting (.initial s trace)) :=
    limited_parse .unit (.initial s trace) (Nat.zero_add maxNesting)
  have hlog : s.entriesWithin maxNesting trace = (s.entries trace).takeWhile (Entry.fits maxNesting) := hlimited.entered_eq rfl
  refine ⟨fun I => Inner.eq_unlimited_iff, hlog, fun e he => ?_, ?_⟩
  · rw [hlog] at he
    have hfits : e.fits maxNesting = true := List.mem_takeWhile_imp he
    simpa [Entry.fits] using hfits
  · have hends := hlimited.ends rfl
    rw [parse_eq_report]
    unfold entries parseUnlimited
    cases hfind : (Ending.state (Rule.unit.run (.initial s trace))).entered.reverse.find? (fun e => !e.fits maxNesting) with
    | none =>
      rw [hfind] at hends
      exact congrArg Ending.report hends
    | some entry =>
      rw [hfind] at hends
      obtain ⟨hdeep, e, t, herror, he⟩ := hends
      have hmessage : e.message = "expression nested too deeply" := congrArg ParseFault.message he.fault
      rw [herror]
      exact ⟨hdeep, _, _, rfl, hmessage, he.location, he.constructs⟩

end Stream

end Courier
