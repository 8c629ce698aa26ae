import Lexico.Proofs.Scanner.History
import Lexico.Scanner.Pool

/-!
# Journals of pools

A **journal** keeps a history for each scanner of a pool: the source, the requests made of the
scanner, and the tokens that it has returned. A further scanner starts with the history of the one it
was made from. However requests to the scanners are interleaved, each history tells all there is to
know about its scanner: what it has returned, where it stands, and which errors it holds.
-/

namespace Lexico.Scanner

open Pool (Request Answer)

/-! ### Requests -/

/-- The request empties the log. -/
def Pool.Request.clears : Request → Bool
  | .clearErrors | .takeErrors => true
  | _ => false

theorem Pool.Request.clears_iff {r : Request} :
    r.clears = true ↔ r = .clearErrors ∨ r = .takeErrors := by
  cases r <;> simp [clears]

/-- The number of tokens that a request asks for, if `read` tokens have been returned and the source
has `total`. A list is asked for up to an end token, and that is counted. -/
def Pool.Request.due (total read : Nat) : Request → Nat
  | .nextToken | .next => 1
  | .collect => total - read + 1
  | .take n => min n (total - read + 1)
  | _ => 0

/-- The tokens in an answer. Where there is no token, or there are fewer than asked for, the end token
was met. -/
def Pool.Answer.tokensFor (s : Source) : Request → Answer → List Token
  | .nextToken, .token t | .next, .token t => [t]
  | .next, .noToken => [s.endToken]
  | .collect, .tokens ts => ts ++ [s.endToken]
  | .take n, .tokens ts => s.seen n ts
  | _, _ => []

/-! ### Histories -/

/-- What has happened to a scanner. -/
structure History where
  source : Source
  /-- The requests, oldest first. -/
  requests : List Request
  /-- The tokens returned, end tokens included. -/
  returned : List Token
  /-- The number of tokens that had been returned when the log was last emptied. -/
  cleared : Nat

namespace History

/-- Nothing has happened yet. -/
def ofSource (s : Source) : History := ⟨s, [], [], 0⟩

/-- A request has been answered. -/
def note (h : History) (r : Request) (a : Answer) : History :=
  let returned := h.returned ++ a.tokensFor h.source r
  ⟨h.source, h.requests ++ [r], returned, if r.clears then returned.length else h.cleared⟩

/-- The number of tokens asked for, of a source that has `total`. -/
def due (h : History) (total : Nat) : Nat :=
  h.requests.foldl (fun read r => read + r.due total read) 0

/-- The text that the tokens take up. -/
def consumed (h : History) : List Char := Text.takenBy h.returned h.source.text.toList

/-- What is wrong with the tokens returned since the log was last emptied. -/
def errors (h : History) : List LexicalError :=
  (h.returned.drop h.cleared).filterMap Token.diagnostic?

/-- The history tells what there is to know about the scanner. -/
structure Describes (h : History) (s : Scanner) : Prop where
  /-- As many tokens as asked for have been returned, and end tokens from the end on. -/
  returned : ∃ a, h.source.analyze = .ok a ∧ let n := h.due a.tokens.length
    h.returned = (a.tokens ++ List.replicate n h.source.endToken).take n
  errors : s.errors = h.errors
  messages : s.messages = h.errors.map LexicalError.message
  consumed : (Buffer.ofSource h.source).slice 0 s.offset = .ok (String.ofList h.consumed)
  position : s.position = Position.start.advanceOver (String.ofList h.consumed)

/-! ### Histories of scanners -/

/-- The history has led to the scanner. -/
def LeadsTo (h : History) (s : Scanner) : Prop :=
  ∃ xs u, Reads [] h.source.text.toList xs ∧ h.source.Progress xs h.returned u ∧
    h.returned.length = h.due xs.length ∧ h.cleared ≤ h.returned.length ∧
    s = h.source.scanner u h.errors.reverse

theorem leadsTo_ofSource (s : Source) : (ofSource s).LeadsTo (.ofSource s) := by
  obtain ⟨xs, hxs⟩ := exists_reads [] s.text.toList
  exact ⟨xs, [], hxs, .start hxs, rfl, Nat.le_refl _, Scanner.ofSource_eq s⟩

/-- A history that has led to a scanner describes it. -/
theorem LeadsTo.describes {h : History} {s : Scanner} (hs : h.LeadsTo s) : h.Describes s := by
  obtain ⟨xs, u, hxs, hprogress, hdue, -, rfl⟩ := hs
  have hconsumed : h.consumed = u := hprogress.takenBy_eq
  obtain ⟨r, htext⟩ := hprogress.isPrefix
  have herrors : (h.source.scanner u h.errors.reverse).errors = h.errors := List.reverse_reverse _
  refine ⟨⟨_, Source.analyze_of_reads hxs, ?_⟩, herrors, ?_, ?_, ?_⟩
  · rw [List.length_map, ← hdue]
    exact hprogress.eq_take
  · rw [messages, herrors]
  · have hslice := slice_of_toList (s := h.source) (u := []) (v := u) (r := r) htext.symm
    rw [byteLength_nil, Nat.zero_add] at hslice
    rw [hconsumed]
    exact hslice
  · rw [hconsumed]
    rfl

theorem due_note (h : History) (r : Request) (a : Answer) (total : Nat) :
    (h.note r a).due total = h.due total + r.due total (h.due total) := by
  rw [due, note, List.foldl_append]
  rfl

theorem errors_note {h : History} (hcleared : h.cleared ≤ h.returned.length) {r : Request}
    (hr : r.clears = false) (a : Answer) :
    (h.note r a).errors =
      h.errors ++ (a.tokensFor h.source r).filterMap Token.diagnostic? := by
  rw [errors, note, hr]
  show ((h.returned ++ _).drop h.cleared).filterMap Token.diagnostic? = _
  rw [List.drop_append_of_le_length hcleared, List.filterMap_append, errors]

/-- Some more tokens have been returned. -/
theorem leadsTo_note {h : History} {r : Request} {a : Answer} {new : List Token}
    {xs : List Occurrence} {u : List Char} (hxs : Reads [] h.source.text.toList xs)
    (hdue : h.returned.length = h.due xs.length) (hcleared : h.cleared ≤ h.returned.length)
    (hr : r.clears = false) (hnew : a.tokensFor h.source r = new)
    (hprogress : h.source.Progress xs (h.returned ++ new) u)
    (hlength : new.length = r.due xs.length h.returned.length) :
    (h.note r a).LeadsTo
      (h.source.scanner u ((new.filterMap Token.diagnostic?).reverse ++ h.errors.reverse)) := by
  subst hnew
  refine ⟨xs, u, hxs, hprogress, ?_, ?_, ?_⟩
  · rw [due_note, ← hdue, ← hlength]
    exact List.length_append
  · simp only [note, hr, List.length_append]
    exact Nat.le_add_right_of_le hcleared
  · rw [errors_note hcleared hr, List.reverse_append]
    rfl

/-- Nothing has changed. -/
theorem leadsTo_note_of_nil {h : History} {s : Scanner} (hs : h.LeadsTo s) {r : Request}
    {a : Answer} (hr : r.clears = false) (hnew : a.tokensFor h.source r = [])
    (hdue : ∀ total read, r.due total read = 0) : (h.note r a).LeadsTo s := by
  obtain ⟨xs, u, hxs, hprogress, hlength, hcleared, rfl⟩ := hs
  rw [← List.append_nil h.returned] at hprogress
  exact leadsTo_note hxs hlength hcleared hr hnew hprogress (hdue _ _).symm

/-- The errors have been forgotten. -/
theorem leadsTo_clear {h : History} {s : Scanner} (hs : h.LeadsTo s) {r : Request}
    (hr : r.clears = true) (a : Answer) : (h.note r a).LeadsTo s.clearErrors := by
  obtain ⟨xs, u, hxs, hprogress, hdue, -, rfl⟩ := hs
  -- Neither of the two requests that clear the log asks for a token.
  have hnothing : a.tokensFor h.source r = [] ∧ r.due xs.length (h.due xs.length) = 0 := by
    rcases Request.clears_iff.mp hr with rfl | rfl <;> exact ⟨rfl, rfl⟩
  obtain ⟨htokens, hnone⟩ := hnothing
  have hreturned : (h.note r a).returned = h.returned := by
    rw [note, htokens]
    exact List.append_nil _
  have hall : (h.note r a).cleared = h.returned.length := by
    rw [note, htokens, hr]
    simp
  have herrors : (h.note r a).errors = [] := by
    rw [errors, hreturned, hall, List.drop_length]
    rfl
  refine ⟨xs, u, hxs, ?_, ?_, ?_, ?_⟩
  · rwa [hreturned]
  · rw [hreturned, due_note, hnone, hdue, Nat.add_zero]
  · exact Nat.le_of_eq (hall.trans (congrArg List.length hreturned.symm))
  · rw [herrors]
    rfl

end History

/-! ### Answers -/

theorem diagnostics_singleton (t : Token) :
    ([t].filterMap Token.diagnostic?).reverse = t.diagnostic?.toList := by
  cases h : t.diagnostic? <;> simp [h]

namespace Pool

variable {p : Pool} {s : Scanner} {h : History}

theorem update_self (hs : p.scanners[p.inUse]? = some s) : p.update s = p := by
  obtain ⟨hlt, hget⟩ := Array.getElem?_eq_some_iff.mp hs
  rw [update, Array.setIfInBounds, dif_pos hlt, ← hget, Array.set_getElem_self]

/-- A list of at most `n` tokens takes the history along. -/
theorem take_of_leadsTo (hs : h.LeadsTo s) (n : Nat) :
    ∃ m, s.take n = .ok m ∧ (h.note (.take n) (.tokens m.tokens.toList)).LeadsTo m.scanner := by
  obtain ⟨xs, u, hxs, hprogress, hdue, hcleared, rfl⟩ := hs
  obtain ⟨new, v, events, hgoOn, hprogress', hlength⟩ := hprogress.goOn n h.errors.reverse #[] #[]
  refine ⟨_, hgoOn, ?_⟩
  rw [← h.source.diagnostics_seen n new]
  apply History.leadsTo_note hxs hdue hcleared rfl ?_ hprogress' (Source.length_seen _ hlength)
  simp [Answer.tokensFor]

/-- So does the list of all tokens left. -/
theorem collect_of_leadsTo (hs : h.LeadsTo s) :
    ∃ m, s.collect = .ok m ∧ (h.note .collect (.tokens m.tokens.toList)).LeadsTo m.scanner := by
  obtain ⟨xs, u, hxs, hprogress, hdue, hcleared, rfl⟩ := hs
  have hn := Nat.lt_succ_self (xs.length - h.returned.length)
  obtain ⟨new, v, events, hgoOn, hprogress', hlength⟩ := hprogress.goOn _ h.errors.reverse #[] #[]
  rw [← hprogress.finish_eq_goOn hn] at hgoOn
  refine ⟨_, hgoOn, ?_⟩
  rw [← h.source.diagnostics_seen (xs.length - h.returned.length).succ new]
  apply History.leadsTo_note hxs hdue hcleared rfl ?_ hprogress'
  · rw [Source.length_seen _ hlength, Request.due]
    omega
  · rw [Source.seen, if_pos (by omega)]
    simp [Answer.tokensFor]

/-- **A request to one scanner** takes its history along. -/
theorem answer_of_leadsTo (hs : h.LeadsTo s) (hp : p.scanners[p.inUse]? = some s)
    {r : Request} (hclone : r ≠ .clone) (huse : ∀ n, r ≠ .use n) :
    ∃ a t, p.answer s r = .ok (a, p.update t) ∧ (h.note r a).LeadsTo t := by
  obtain ⟨xs, u, hxs, hprogress, hdue, hcleared, heq⟩ := id hs
  cases r with
  | nextToken =>
    obtain ⟨t, v, events, hnext, hprogress', -⟩ := hprogress.nextToken h.errors.reverse
    rw [← heq, ← diagnostics_singleton] at hnext
    refine ⟨.token t, _, ?_, History.leadsTo_note hxs hdue hcleared rfl rfl hprogress' rfl⟩
    rw [answer, hnext]
    rfl
  | next =>
    obtain ⟨t, v, events, hnext, hprogress', hend⟩ := hprogress.nextToken h.errors.reverse
    rw [← heq, ← diagnostics_singleton] at hnext
    refine ⟨if t.isEof then .noToken else .token t, _, ?_,
      History.leadsTo_note hxs hdue hcleared rfl ?_ hprogress' rfl⟩
    · rw [answer, hnext]
      rfl
    · rcases hend with ⟨hne, -⟩ | ⟨rfl, -⟩
      · rw [if_neg (by simp [hne])]
        rfl
      · rfl
  | collect =>
    obtain ⟨m, hcollect, hleads⟩ := collect_of_leadsTo hs
    refine ⟨_, _, ?_, hleads⟩
    rw [answer, hcollect]
    rfl
  | take n =>
    obtain ⟨m, htake, hleads⟩ := take_of_leadsTo hs n
    refine ⟨_, _, ?_, hleads⟩
    rw [answer, htake]
    rfl
  | messages | errors | position =>
    exact ⟨_, s, by rw [update_self hp]; rfl, History.leadsTo_note_of_nil hs rfl rfl fun _ _ => rfl⟩
  | clearErrors | takeErrors => exact ⟨_, _, rfl, History.leadsTo_clear hs rfl _⟩
  | clone => exact absurd rfl hclone
  | use n => exact absurd rfl (huse n)

end Pool

/-! ### Journals -/

/-- A history for each scanner of a pool, and the number of the one in use. -/
structure Journal where
  histories : Array History
  inUse : Nat

namespace Journal

/-- The journal in which nothing has happened yet. -/
def ofSources (sources : List Source) : Journal := ⟨(sources.map History.ofSource).toArray, 0⟩

/-- A request to the pool has been answered. -/
def note (j : Journal) (r : Request) (a : Answer) : Journal :=
  match j.histories[j.inUse]? with
  | none => j
  | some h =>
    match r with
    | .clone => { j with histories := j.histories.push h }
    | .use number => if number < j.histories.size then { j with inUse := number } else j
    | r => { j with histories := j.histories.setIfInBounds j.inUse (h.note r a) }

/-- Requests to the pool have been answered, one after the other. -/
def notes (j : Journal) : List Request → List Answer → Journal
  | r :: rs, a :: as => (j.note r a).notes rs as
  | _, _ => j

/-- Each scanner of the pool has its history. -/
structure Matches (R : History → Scanner → Prop) (j : Journal) (p : Pool) : Prop where
  inUse : j.inUse = p.inUse
  size : j.histories.size = p.scanners.size
  each : ∀ (i : Nat) (h : History) (s : Scanner),
    j.histories[i]? = some h → p.scanners[i]? = some s → R h s

end Journal

namespace Pool

/-- Answers requests, one after the other. -/
def run (p : Pool) : List Request → Except Fault (List Answer × Pool)
  | [] => .ok ([], p)
  | r :: rs => do
    let (a, q) ← p.request r
    let (as, q) ← q.run rs
    return (a :: as, q)

/-- All scanners but the one in use are in the same state in `q`. -/
def KeepsOthers (p q : Pool) : Prop :=
  ∀ (i : Nat) (s : Scanner), i ≠ p.inUse → p.scanners[i]? = some s → q.scanners[i]? = some s

end Pool

namespace Journal

variable {j : Journal} {p : Pool}

theorem matches_ofSources (sources : List Source) :
    (ofSources sources).Matches History.LeadsTo (.ofSources sources) := by
  refine ⟨rfl, by simp [ofSources, Pool.ofSources], ?_⟩
  intro i h s hh hs
  simp only [ofSources, Pool.ofSources, List.getElem?_toArray, List.getElem?_map,
    Option.map_eq_some_iff] at hh hs
  obtain ⟨source, hsource, rfl⟩ := hh
  obtain ⟨source', hsource', rfl⟩ := hs
  rw [hsource, Option.some.injEq] at hsource'
  subst hsource'
  exact History.leadsTo_ofSource source

/-- A request that neither adds a scanner nor changes the one in use is noted in its history. -/
theorem note_eq {h : History} (hh : j.histories[j.inUse]? = some h) {r : Request}
    (hclone : r ≠ .clone) (huse : ∀ n, r ≠ .use n) (a : Answer) :
    j.note r a = { j with histories := j.histories.setIfInBounds j.inUse (h.note r a) } := by
  rw [note, hh]
  cases r with
  | clone => exact absurd rfl hclone
  | use n => exact absurd rfl (huse n)
  | _ => rfl

variable {R : History → Scanner → Prop}

/-- The scanner in use has a history. -/
theorem Matches.history (hj : j.Matches R p) {s : Scanner} (hs : p.scanners[p.inUse]? = some s) :
    ∃ h, j.histories[j.inUse]? = some h ∧ R h s := by
  obtain ⟨hlt, -⟩ := Array.getElem?_eq_some_iff.mp hs
  rw [← hj.inUse, ← hj.size] at hlt
  have hh := Array.getElem?_eq_getElem hlt
  exact ⟨_, hh, hj.each _ _ _ hh (hj.inUse ▸ hs)⟩

/-- The scanner in use and its history go on together. -/
theorem Matches.update (hj : j.Matches R p) {h : History} {s : Scanner} (hr : R h s) :
    Matches R { j with histories := j.histories.setIfInBounds j.inUse h } (p.update s) := by
  refine ⟨hj.inUse, by simpa [Pool.update] using hj.size, ?_⟩
  intro i h' s' hh hs
  rw [Pool.update, Array.getElem?_setIfInBounds] at hs
  rw [Array.getElem?_setIfInBounds, hj.inUse, hj.size] at hh
  by_cases hi : p.inUse = i
  · rw [if_pos hi] at hh hs
    split at hs
    · next hlt =>
      rw [if_pos hlt, Option.some.injEq] at hh
      rw [Option.some.injEq] at hs
      exact hh ▸ hs ▸ hr
    · cases hs
  · rw [if_neg hi] at hh hs
    exact hj.each i h' s' hh hs

/-- A further scanner starts with the history of the one it was made from. -/
theorem Matches.push (hj : j.Matches R p) {h : History} {s : Scanner} (hr : R h s) :
    Matches R { j with histories := j.histories.push h } { p with scanners := p.scanners.push s } := by
  refine ⟨hj.inUse, by simpa using hj.size, ?_⟩
  intro i h' s' hh hs
  rw [Array.getElem?_push] at hh hs
  rw [hj.size] at hh
  split at hs
  · next hi =>
    rw [if_pos hi, Option.some.injEq] at hh
    rw [Option.some.injEq] at hs
    exact hh ▸ hs ▸ hr
  · next hi =>
    rw [if_neg hi] at hh
    exact hj.each i h' s' hh hs

/-- **A request to the pool** is answered, and the scanners not in use stay as they are. -/
theorem Matches.request (hj : j.Matches History.LeadsTo p) (r : Request) :
    ∃ a q, p.request r = .ok (a, q) ∧ (j.note r a).Matches History.LeadsTo q ∧ p.KeepsOthers q := by
  cases hs : p.scanners[p.inUse]? with
  | none =>
    have hnone : j.histories[j.inUse]? = none := by
      rw [Array.getElem?_eq_none_iff] at hs ⊢
      rwa [hj.size, hj.inUse]
    refine ⟨.done, p, by rw [Pool.request, hs], ?_, fun _ _ _ h => h⟩
    rw [note, hnone]
    exact hj
  | some s =>
    obtain ⟨h, hh, hleads⟩ := hj.history hs
    rw [Pool.request, hs]
    by_cases hclone : r = .clone
    · subst hclone
      refine ⟨_, _, rfl, ?_, ?_⟩
      · rw [note, hh]
        exact hj.push hleads
      · intro i t _ ht
        obtain ⟨hlt, -⟩ := Array.getElem?_eq_some_iff.mp ht
        show (p.scanners.push s)[i]? = some t
        rw [Array.getElem?_push, if_neg (Nat.ne_of_lt hlt), ht]
    by_cases huse : ∃ n, r = .use n
    · obtain ⟨n, rfl⟩ := huse
      refine ⟨_, _, rfl, ?_, ?_⟩
      · rw [note, hh]
        show Matches _ (if n < j.histories.size then _ else _) _
        rw [hj.size]
        split
        · exact ⟨rfl, hj.size, hj.each⟩
        · exact hj
      · intro i t _ ht
        split <;> exact ht
    · rw [not_exists] at huse
      obtain ⟨a, t, hanswer, hnote⟩ := Pool.answer_of_leadsTo hleads hs hclone huse
      refine ⟨a, _, hanswer, ?_, ?_⟩
      · rw [note_eq hh hclone huse]
        exact hj.update hnote
      · intro i t' hi ht
        exact (Array.getElem?_setIfInBounds_ne (Ne.symm hi)).trans ht

/-- **Requests to the pool** are answered, one after the other. -/
theorem Matches.run (hj : j.Matches History.LeadsTo p) (rs : List Request) :
    ∃ as q, p.run rs = .ok (as, q) ∧ as.length = rs.length ∧
      (j.notes rs as).Matches History.LeadsTo q := by
  induction rs generalizing j p with
  | nil => exact ⟨[], p, rfl, rfl, hj⟩
  | cons r rs ih =>
    obtain ⟨a, p', hrequest, hnote, -⟩ := hj.request r
    obtain ⟨as, q, hrun, hlength, hnotes⟩ := ih hnote
    refine ⟨a :: as, q, ?_, congrArg (· + 1) hlength, hnotes⟩
    rw [Pool.run, hrequest, Fault.ok_bind]
    show (p'.run rs >>= _) = _
    rw [hrun]
    rfl

end Journal

/-- **However requests are interleaved**, each one is answered, it changes no scanner but the one in
use, and every scanner is as its own history tells. -/
theorem Pool.run_ofSources (sources : List Source) (requests : List Request) :
    ∃ answers p, (ofSources sources).run requests = .ok (answers, p) ∧
      answers.length = requests.length ∧
      ((Journal.ofSources sources).notes requests answers).Matches History.Describes p ∧
      ∀ r, ∃ a q, p.request r = .ok (a, q) ∧ p.KeepsOthers q := by
  obtain ⟨answers, p, hrun, hlength, hmatches⟩ :=
    (Journal.matches_ofSources sources).run requests
  refine ⟨answers, p, hrun, hlength, ⟨hmatches.inUse, hmatches.size, ?_⟩, ?_⟩
  · intro i h s hh hs
    exact (hmatches.each i h s hh hs).describes
  · intro r
    obtain ⟨a, q, hrequest, -, hothers⟩ := hmatches.request r
    exact ⟨a, q, hrequest, hothers⟩

end Lexico.Scanner
