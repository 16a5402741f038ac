import Solwright.Proofs.Schema.Dumped
import Solwright.Proofs.Session.Documents
import Solwright.Proofs.Suggestion.Usable
import Solwright.Tools

/-! Which reading a request is given. A model is asked at most once, and only where there is a client for it
and time left. Its reading is taken if its reply comes in time and can be used; in every other case the
reading is that of the keywords, which passes the checks of a suggestion for every text. -/

namespace Solwright

open Number Session

namespace Keywords

theorem reasoning_suggest (prompt : String) : (suggest prompt).reasoning ≠ "" := by
  have hall : (generalRule :: familyRules).all fun r => r.reasoning != "" := by decide
  have hmem : familyRule (keywordsOf prompt.toList) ∈ generalRule :: familyRules := by
    unfold familyRule
    cases hfind : familyRules.find? fun r => hits (keywordsOf prompt.toList) r.keywords with
    | none => exact List.mem_cons_self
    | some r => exact List.mem_cons_of_mem _ (List.mem_of_find?_eq_some hfind)
  have hreasoning := List.all_eq_true.1 hall _ hmem
  exact bne_iff_ne.1 hreasoning

/-- The keywords of a text never lead to a reading that its checks refuse. -/
theorem read_suggest (prompt : String) : Suggestion.read (suggest prompt).json = .ok (suggest prompt) :=
  (suggest prompt).read_json (reasoning_suggest prompt)

end Keywords

namespace Session

variable {s : Session}

/-- The next reply of the model, where it comes within a limit of time and is no failure. -/
def timelyReply (s : Session) (timeout : Option Binary64) : Except Fault (Option String) :=
  (s.outside.replies.next.within timeout).bind textOfReply

theorem run_ask_over {timeout : Option Binary64} (h : isOver timeout = true) (q : Question) :
    (ask q timeout).run s = (.error .timedOut, s) := by
  unfold ask
  rw [if_pos h]
  rfl

/-- A question that there is time for is noted, whatever its reply. -/
theorem run_ask {timeout : Option Binary64} (h : isOver timeout = false) (q : Question) :
    ((ask q timeout).run s).1 = s.timelyReply timeout ∧
      ((ask q timeout).run s).2.journal.questions = s.journal.questions ++ [q] := by
  unfold ask
  rw [if_neg (by simp [h])]
  exact ⟨rfl, rfl⟩

/-- There is a client: one that is passed, or one with the key of the settings. -/
def hasClient (passed : Option Client) (settings : Settings) : Bool :=
  passed.isSome || settings.modelAvailable

/-- A client is made at most, which asks nothing and takes no reply. -/
theorem clientFor_spec (passed : Option Client) (settings : Settings) (s : Session) :
    (clientFor passed settings s).1.isSome = hasClient passed settings ∧
      (clientFor passed settings s).2.journal.questions = s.journal.questions ∧
      (clientFor passed settings s).2.outside = s.outside := by
  unfold clientFor hasClient
  cases passed with
  | some c => exact ⟨rfl, rfl, rfl⟩
  | none => cases settings.modelAvailable <;> exact ⟨rfl, rfl, rfl⟩

/-- What the model is asked, if it is asked: that is wanted, there is a client and time, and the context can be
written. -/
def questionFor? (s : Session) (prompt : RawText) (available : Bool) (context : Context) (passed : Option Client)
    (settings : Settings) : Option Question :=
  if available && hasClient passed settings && !isOver settings.modelTimeout then
    (context.data s.outside.limits.writing).toOption.map (suggestionQuestion settings prompt)
  else none

/-- The model gives a suggestion in time. -/
def Suggests (s : Session) (settings : Settings) (g : Suggestion) : Prop :=
  ∃ reply, s.timelyReply settings.modelTimeout = .ok reply ∧
    Suggestion.ofReply s.outside.limits.reading reply = .ok g

theorem Suggests.unique {settings : Settings} {g g' : Suggestion} (h : s.Suggests settings g)
    (h' : s.Suggests settings g') : g' = g := by
  obtain ⟨reply, hreply, hg⟩ := h
  obtain ⟨reply', hreply', hg'⟩ := h'
  rw [hreply] at hreply'
  cases hreply'
  rw [hg] at hg'
  cases hg'
  rfl

theorem modelSuggestion_spec (settings : Settings) (prompt : RawText) (context : Context) (s : Session)
    {client : Option Client} (hclient : hasClient client settings = true) :
    let question? := s.questionFor? prompt true context client settings
    (∀ g, ((modelSuggestion settings prompt context).run s).1 = .ok g ↔
      question?.isSome = true ∧ s.Suggests settings g) ∧
    ((modelSuggestion settings prompt context).run s).2.journal.questions =
      s.journal.questions ++ question?.toList := by
  unfold modelSuggestion questionFor?
  rw [run_get_bind, hclient]
  dsimp only
  cases hdata : context.data s.outside.limits.writing with
  | error f =>
    rw [run_error_bind]
    cases isOver settings.modelTimeout <;> exact ⟨fun g => ⟨nofun, fun h => nomatch h.1⟩, (List.append_nil _).symm⟩
  | ok known =>
  rw [run_ok_bind, run_bind]
  cases hover : isOver settings.modelTimeout with
  | true =>
    rw [run_ask_over hover]
    exact ⟨fun g => ⟨nofun, fun h => nomatch h.1⟩, (List.append_nil _).symm⟩
  | false =>
    obtain ⟨hreply, hquestions⟩ := run_ask (s := s) hover (suggestionQuestion settings prompt known)
    revert hreply hquestions
    rcases (ask (suggestionQuestion settings prompt known) settings.modelTimeout).run s with ⟨f | reply, s'⟩
    · intro hreply hquestions
      refine ⟨fun g => ⟨nofun, ?_⟩, hquestions⟩
      rintro ⟨-, reply, htimely, -⟩
      rw [htimely] at hreply
      cases hreply
    · intro hreply hquestions
      refine ⟨fun g => ⟨fun h => ⟨rfl, reply, hreply.symm, h⟩, ?_⟩, hquestions⟩
      rintro ⟨-, reply', htimely, hg⟩
      rw [htimely] at hreply
      cases hreply
      exact hg

theorem at_bind {α β : Type} {P : β × Session → Prop} {x : StateM Session α} {k : α → StateM Session β}
    (h : P (k (x s).1 (x s).2)) : P ((x >>= k) s) := h

section Reading

variable (prompt : RawText) (available : Bool) (context : Context) (passed : Option Client) (settings : Settings)

/-- The two readings that there are, and when each of them is given. -/
inductive Reading (s : Session) : Suggestion × Provenance → Prop
  | model (g : Suggestion) : (s.questionFor? prompt available context passed settings).isSome = true →
      s.Suggests settings g → Reading s (g, .model)
  | keywords : (∀ g, ¬((s.questionFor? prompt available context passed settings).isSome = true ∧
      s.Suggests settings g)) → Reading s (Keywords.suggest prompt.shown, .heuristic)

/-- What an interpretation comes to: one of the readings, with what there is to ask asked. -/
structure Interprets (s : Session) (outcome : (Suggestion × Provenance) × Session) : Prop where
  reading : Reading prompt available context passed settings s outcome.1
  questions : outcome.2.journal.questions =
    s.journal.questions ++ (s.questionFor? prompt available context passed settings).toList

theorem interprets_of_client {s s' : Session} (hclient : hasClient passed settings = true)
    (houtside : s'.outside = s.outside) (hquestions : s'.journal.questions = s.journal.questions) :
    Interprets prompt true context passed settings s
      ((do match ← (modelSuggestion settings prompt context).run with
        | .ok g => return (g, .model)
        | .error f =>
          log .warning ("Model interpretation failed, using keyword analysis: " ++ f.message)
          return (Keywords.suggest prompt.shown, .heuristic) : StateM Session (Suggestion × Provenance)) s') := by
  have hsuggests : ∀ g, s'.Suggests settings g ↔ s.Suggests settings g := by
    intro g
    rw [Suggests, Suggests, timelyReply, timelyReply, houtside]
  have hquestion : s'.questionFor? prompt true context passed settings =
      s.questionFor? prompt true context passed settings := by
    rw [questionFor?, questionFor?, houtside]
  obtain ⟨hsuggestion, hasked⟩ := modelSuggestion_spec settings prompt context s' hclient
  rw [hquestions, hquestion] at hasked
  refine at_bind (x := (modelSuggestion settings prompt context).run) ?_
  revert hsuggestion hasked
  rcases (modelSuggestion settings prompt context).run s' with ⟨f | g, s₂⟩
  · intro hsuggestion hasked
    refine ⟨.keywords fun g ⟨hg, hsuggests'⟩ => ?_, hasked⟩
    cases (hsuggestion g).2 ⟨hquestion ▸ hg, (hsuggests g).2 hsuggests'⟩
  · intro hsuggestion hasked
    obtain ⟨hsome, hg⟩ := (hsuggestion g).1 rfl
    exact ⟨.model g (hquestion ▸ hsome) ((hsuggests g).1 hg), hasked⟩

theorem interprets (s : Session) : Interprets prompt available context passed settings s
    ((interpret prompt available context passed settings).run s) := by
  unfold interpret
  cases available with
  | false => exact ⟨.keywords fun g h => (nomatch h.1), (List.append_nil _).symm⟩
  | true =>
    obtain ⟨hclient, hquestions, houtside⟩ := clientFor_spec passed settings s
    refine at_bind (x := clientFor passed settings) ?_
    cases hfound : (clientFor passed settings s).1 with
    | none =>
      have hnone : s.questionFor? prompt true context passed settings = none := by
        rw [questionFor?, ← hclient, hfound]
        rfl
      refine ⟨.keywords fun g h => ?_, ?_⟩
      · rw [hnone] at h
        cases h.1
      · rw [hnone]
        exact hquestions.trans (List.append_nil _).symm
    | some c =>
      rw [hfound] at hclient
      exact interprets_of_client prompt context passed settings hclient.symm houtside hquestions

end Reading

end Session

end Solwright
