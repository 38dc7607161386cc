import Bajutsu.Assertions.AssignRequests

/-!
# Requests in order

The timeline is scanned once: each matcher takes the first exchange it accepts behind the one taken before. The scan
succeeds where positions for all matchers exist, unless a matcher raises at an exchange that the scan passes.
-/

namespace Bajutsu.Assertions

open Placement

section Sequence

variable (rt : Runtime)

/-- `while i < len(exchanges) and not match_request(exchanges[i], req)`, over what is left of the exchanges. -/
def advance (req : RequestMatch) : List NetworkExchange → Nat → Except Failure Nat
  | [], i => .ok i
  | ex :: rest, i => do if ← matchRequest rt ex req then return i else advance req rest (i + 1)

def notInOrder (exchanges : List NetworkExchange) (seq : List RequestMatch) (pos : Nat) (req : RequestMatch) : String :=
  "step " ++ toString pos ++ " (" ++ requestLabel rt req false ++ ") not observed in order (matched " ++ toString pos ++
    " of " ++ toString seq.length ++ " so far; observed " ++ toString exchanges.length ++ " exchanges)"

def sequenceDetail (seq : List RequestMatch) : String :=
  "requestSequence " ++ " → ".intercalate (seq.map fun req => requestLabel rt req false)

/-- The matchers from a position on, with the exchanges from an index on. -/
def sequenceFrom (exchanges : List NetworkExchange) (seq : List RequestMatch) :
    Nat → Nat → List RequestMatch → Except Failure AssertionResult
  | _, _, [] => .ok ⟨true, "requestSequence", sequenceDetail rt seq, ""⟩
  | pos, i, req :: rest => do
    let i ← advance rt req (exchanges.drop i) i
    if exchanges.length ≤ i then
      return ⟨false, "requestSequence", sequenceDetail rt seq, notInOrder rt exchanges seq pos req⟩
    else sequenceFrom exchanges seq (pos + 1) (i + 1) rest

def evalRequestSequence (exchanges : List NetworkExchange) (seq : List RequestMatch) :
    Except Failure AssertionResult :=
  sequenceFrom rt exchanges seq 0 0 seq

/-- What the scan asks of an exchange. -/
def judge (req : RequestMatch) (ex : NetworkExchange) : Except Failure Bool := matchRequest rt ex req

def SequenceOk (exchanges : List NetworkExchange) (seq : List RequestMatch) : Prop :=
  ∃ result, evalRequestSequence rt exchanges seq = .ok result ∧ result.ok = true

/-- Increasing positions of exchanges, one for each matcher in order, that the matchers accept. -/
def InOrder (exchanges : List NetworkExchange) (seq : List RequestMatch) : Prop :=
  ∃ position : Fin seq.length → Fin exchanges.length, StrictMono position ∧
    ∀ k, matchRequest rt exchanges[position k] seq[k] = .ok true

/-- No matcher raises at an exchange that the matchers before it can be placed in front of, unless it can be placed by
then. -/
def PassesQuietly (exchanges : List NetworkExchange) (seq : List RequestMatch) : Prop :=
  ∀ (k : Fin seq.length) (j : Fin exchanges.length), InOrder rt (exchanges.take j) (seq.take k) →
    ¬InOrder rt (exchanges.take (j + 1)) (seq.take (k + 1)) → ∀ e, matchRequest rt exchanges[j] seq[k] ≠ .error e

variable {rt}

theorem advance_ge {req : RequestMatch} {exchanges : List NetworkExchange} {i j : Nat}
    (h : advance rt req exchanges i = .ok j) : i ≤ j ∧ j ≤ i + exchanges.length := by
  induction exchanges generalizing i with
  | nil =>
    cases h
    simp
  | cons ex rest ih =>
    rw [advance] at h
    cases hMatch : matchRequest rt ex req with
    | error e =>
      rw [hMatch] at h
      cases h
    | ok accepted =>
      rw [hMatch] at h
      cases accepted with
      | true =>
        cases h
        simp
      | false =>
        have hRest := ih h
        rw [List.length_cons]
        omega

theorem scan_advance (req : RequestMatch) (seq : List RequestMatch) (exchanges : List NetworkExchange) (i : Nat) :
    scan (judge rt) exchanges (req :: seq) =
      (advance rt req exchanges i).bind fun j =>
        if i + exchanges.length ≤ j then .ok false else scan (judge rt) (exchanges.drop (j + 1 - i)) seq := by
  induction exchanges generalizing i with
  | nil => simp [scan, advance, Except.bind]
  | cons ex rest ih =>
    rw [scan, advance, judge]
    cases matchRequest rt ex req with
    | error e => rfl
    | ok accepted =>
      cases accepted with
      | true =>
        have hBehind : i + 1 - i = 1 := by omega
        simp [bind, Except.bind, pure, Except.pure, hBehind]
      | false =>
        change scan (judge rt) rest (req :: seq) = (advance rt req rest (i + 1)).bind _
        rw [ih (i + 1)]
        cases hAdvance : advance rt req rest (i + 1) with
        | error e => rfl
        | ok j =>
          have hGe := advance_ge hAdvance
          have hSplit : j + 1 - i = (j + 1 - (i + 1)) + 1 := by omega
          simp only [Except.bind, List.length_cons, hSplit, List.drop_succ_cons]
          have hEnd : i + 1 + rest.length ≤ j ↔ i + (rest.length + 1) ≤ j := by omega
          simp only [hEnd]

theorem sequenceFrom_ok_iff (exchanges : List NetworkExchange) (all seq : List RequestMatch) (pos : Nat) {i : Nat}
    (hBound : i ≤ exchanges.length) :
    (∃ result, sequenceFrom rt exchanges all pos i seq = .ok result ∧ result.ok = true) ↔
      scan (judge rt) (exchanges.drop i) seq = .ok true := by
  induction seq generalizing pos i with
  | nil =>
    have hScan : scan (judge rt) (exchanges.drop i) [] = .ok true := by cases exchanges.drop i <;> rfl
    exact iff_of_true ⟨_, rfl, rfl⟩ hScan
  | cons req seq ih =>
    rw [sequenceFrom, scan_advance req seq (exchanges.drop i) i, List.length_drop]
    have hEnd : i + (exchanges.length - i) = exchanges.length := by omega
    rw [hEnd]
    cases hAdvance : advance rt req (exchanges.drop i) i with
    | error e => exact iff_of_false nofun nofun
    | ok j =>
      have hGe := advance_ge hAdvance
      change (∃ result, (if exchanges.length ≤ j then _ else _) = _ ∧ _) ↔ (if exchanges.length ≤ j then _ else _) = _
      by_cases hLeft : exchanges.length ≤ j
      · rw [if_pos hLeft, if_pos hLeft]
        exact iff_of_false (fun ⟨_, hIs, hOk⟩ => by cases hIs; cases hOk) nofun
      · have hDrop : i + (j + 1 - i) = j + 1 := by omega
        rw [if_neg hLeft, if_neg hLeft, List.drop_drop, hDrop]
        exact ih (pos + 1) (by omega)

theorem passesQuietly_iff {exchanges : List NetworkExchange} {seq : List RequestMatch} :
    PassesQuietly rt exchanges seq ↔ Quiet (judge rt) exchanges seq := by
  constructor
  · rintro h k j hBefore hNot ⟨e, he⟩
    exact h k j hBefore hNot e he
  · intro h k j hBefore hNot e he
    exact h k j hBefore hNot ⟨e, he⟩

theorem sequenceOk_iff (exchanges : List NetworkExchange) (seq : List RequestMatch) :
    SequenceOk rt exchanges seq ↔ InOrder rt exchanges seq ∧ PassesQuietly rt exchanges seq := by
  rw [SequenceOk, evalRequestSequence, sequenceFrom_ok_iff exchanges seq seq 0 (Nat.zero_le _), List.drop_zero,
    scan_true_iff, passesQuietly_iff]
  rfl

theorem InOrder.mono {exchanges longer : List NetworkExchange} {seq : List RequestMatch}
    (h : InOrder rt exchanges seq) (hPart : exchanges.Sublist longer) : InOrder rt longer seq := by
  have hPlaced : Placed (Meets (judge rt)) exchanges seq := h
  exact hPlaced.mono hPart

theorem passesQuietly_of_urls {exchanges : List NetworkExchange} {seq : List RequestMatch}
    (hOrder : InOrder rt exchanges seq) (hUrls : ∀ ex ∈ exchanges, ∃ params, queryParams rt ex = .ok params) :
    PassesQuietly rt exchanges seq := by
  intro k j _ _ e hError
  obtain ⟨position, -, hAccepts⟩ := hOrder
  obtain ⟨params, hParams⟩ := hUrls exchanges[j] (List.getElem_mem j.isLt)
  exact nomatch hParams.symm.trans (matchRequest_error (hAccepts k) hError)

/-- A sequence passes exactly where its matchers accept exchanges in order, and still passes a longer timeline, if and
only if neither scan passes an exchange that raises. -/
theorem request_sequence_iff {exchanges longer : List NetworkExchange} (seq : List RequestMatch)
    (hPart : exchanges.Sublist longer) :
    ((SequenceOk rt exchanges seq ↔ InOrder rt exchanges seq) ∧ (SequenceOk rt exchanges seq → SequenceOk rt longer seq)) ↔
      (InOrder rt exchanges seq → PassesQuietly rt exchanges seq ∧ PassesQuietly rt longer seq) := by
  rw [sequenceOk_iff, sequenceOk_iff]
  constructor
  · rintro ⟨hIff, hLonger⟩ hOrder
    have hOk := hIff.mpr hOrder
    exact ⟨hOk.right, (hLonger hOk).right⟩
  · intro h
    constructor
    · exact ⟨And.left, fun hOrder => ⟨hOrder, (h hOrder).left⟩⟩
    · rintro ⟨hOrder, -⟩
      exact ⟨hOrder.mono hPart, (h hOrder).right⟩

end Sequence

/-- ASCII texts, patterns without operators, and network locations whose brackets come in pairs. -/
def plainRuntime : Runtime where
  upper := String.toUpper
  compile pattern := some fun text => text.toList.tails.any pattern.toList.isPrefixOf
  validNetloc netloc := decide ('[' ∈ netloc) == decide (']' ∈ netloc)
  loads _ := none
  dumps _ := ""
  str _ := ""

def seen (url : String) : NetworkExchange :=
  { method := "GET", url, path := "/", status := some 200, requestBody := none }

/-- One parameter of the query. -/
def queried (name want : String) : RequestMatch where
  method := none
  url := none
  urlMatches := none
  path := none
  pathMatches := none
  query := some [(name, .text want)]
  body := none
  status := none
  bodyMatches := none
  count := none

theorem request_sequence_seen :
    [seen "http://a/?q=1"].Sublist [seen "http://b/", seen "http://a/?q=1"] ∧
      (SequenceOk plainRuntime [seen "http://a/?q=1"] [queried "q" "1"] →
        SequenceOk plainRuntime [seen "http://b/", seen "http://a/?q=1"] [queried "q" "1"]) := by
  have hPart : [seen "http://a/?q=1"].Sublist [seen "http://b/", seen "http://a/?q=1"] := by simp
  have hUrls : ∀ ex ∈ [seen "http://b/", seen "http://a/?q=1"], ∃ params, queryParams plainRuntime ex = .ok params := by
    simp only [List.forall_mem_cons]
    exact ⟨⟨_, rfl⟩, ⟨_, rfl⟩, nofun⟩
  refine ⟨hPart, ((request_sequence_iff [queried "q" "1"] hPart).mpr fun hOrder => ?_).right⟩
  exact ⟨passesQuietly_of_urls hOrder fun ex hMem => hUrls ex (hPart.subset hMem),
    passesQuietly_of_urls (hOrder.mono hPart) hUrls⟩

/-- The second exchange is accepted, but the first has a URL that is refused. -/
theorem request_sequence_unread : ¬∀ rt exchanges seq, SequenceOk rt exchanges seq ↔ InOrder rt exchanges seq := by
  intro h
  have hOrder : InOrder plainRuntime [seen "http://[b/?q=1", seen "http://a/?q=1"] [queried "q" "1"] := by
    refine ⟨fun _ => 1, fun a b hLess => ?_, fun k => ?_⟩
    · have hOne : b.val < 1 := b.isLt
      omega
    · rw [Fin.fin_one_eq_zero k]
      rfl
  obtain ⟨result, hIs, -⟩ := (h _ _ _).mpr hOrder
  have hRaised : evalRequestSequence plainRuntime [seen "http://[b/?q=1", seen "http://a/?q=1"] [queried "q" "1"] =
      .error (.badUrl "http://[b/?q=1") := rfl
  exact nomatch hRaised.symm.trans hIs

end Bajutsu.Assertions

/-!
# Evaluating a block

Two or more requests without a count are given an exchange each; every other assertion is evaluated for itself.
-/

namespace Bajutsu.Assertions

open Assignment

/-- The kinds that are not about requests are a parameter. -/
inductive Assertion (K : Type) where
  | request (req : RequestMatch)
  | requestSequence (seq : List RequestMatch)
  | other (a : K)

section Evaluate

variable (rt : Runtime)

/-- `[j for j, ex in enumerate(exchanges) if match_request(ex, req)]`. -/
def adjacent (exchanges : List NetworkExchange) (req : RequestMatch) : Except Failure (List (Fin exchanges.length)) :=
  (List.finRange exchanges.length).filterM fun j => matchRequest rt exchanges[j] req

/-- The exchange of each request, none for `-1`, and whether it matches any. -/
def assignRequests (exchanges : List NetworkExchange) (reqs : List RequestMatch) :
    Except Failure (List (Option (Fin exchanges.length)) × List Bool) := do
  let rows ← reqs.mapM (adjacent rt exchanges)
  let st := assignEach (fun i : Fin reqs.length => rows.getD i []) (List.finRange reqs.length) Arrays.empty
  return ((List.finRange reqs.length).map st.assigned, rows.map fun row => row ≠ [])

def noMatching (exchanges : List NetworkExchange) : String :=
  "no matching exchange (observed " ++ toString exchanges.length ++ ")"

def evalRequest (exchanges : List NetworkExchange) (req : RequestMatch) : Except Failure AssertionResult := do
  let n ← countMatching rt exchanges req
  let detail := "request " ++ requestLabel rt req true
  match req.count with
  | some count =>
    if (n : Int) = count then return ⟨true, "request", detail, ""⟩
    else return ⟨false, "request", detail, "expected count=" ++ toString count ++ " but matched " ++ toString n⟩
  | none =>
    if 1 ≤ n then return ⟨true, "request", detail, ""⟩
    else return ⟨false, "request", detail, (← dictionaryHint rt exchanges req.toEndpointMatch).getD (noMatching exchanges)⟩

def requestAssignmentResult {n : Nat} (exchanges : List NetworkExchange) (req : RequestMatch) (assignedEx : Option (Fin n))
    (matchedAny : Bool) : Except Failure AssertionResult :=
  let detail := "request " ++ requestLabel rt req true
  match assignedEx, matchedAny with
  | some _, _ => .ok ⟨true, "request", detail, ""⟩
  | none, true =>
    .ok ⟨false, "request", detail,
      "matching exchange already taken by another request (request ↔ exchange is one-to-one)"⟩
  | none, false => do
    return ⟨false, "request", detail, (← dictionaryHint rt exchanges req.toEndpointMatch).getD (noMatching exchanges)⟩

variable {K : Type} (evalOther : K → Except Failure AssertionResult)

def evaluateOne (exchanges : List NetworkExchange) : Assertion K → Except Failure AssertionResult
  | .request req => evalRequest rt exchanges req
  | .requestSequence seq => evalRequestSequence rt exchanges seq
  | .other a => evalOther a

/-- The requests without a count, each with its place in the block. -/
def bareOf (assertions : List (Assertion K)) : List (Nat × RequestMatch) :=
  assertions.zipIdx.filterMap fun item =>
    match item.1 with
    | .request req => if req.count = none then some (item.2, req) else none
    | _ => none

/-- The results of the requests that are given an exchange each, by their places. -/
def assignBare (exchanges : List NetworkExchange) (bare : List (Nat × RequestMatch)) :
    Except Failure (List (Nat × AssertionResult)) :=
  if 2 ≤ bare.length then do
    let (order, hadCandidate) ← assignRequests rt exchanges (bare.map Prod.snd)
    ((bare.zip order).zip hadCandidate).mapM fun x => do
      return (x.1.1.1, ← requestAssignmentResult rt exchanges x.1.1.2 x.1.2 x.2)
  else return []

def evaluate (assertions : List (Assertion K)) (exchanges : List NetworkExchange) :
    Except Failure (List AssertionResult) := do
  let assigned ← assignBare rt exchanges (bareOf assertions)
  assertions.zipIdx.mapM fun item =>
    match PyValue.get assigned item.2 with
    | some result => .ok result
    | none => evaluateOne rt evalOther exchanges item.1

/-- The request without a count. -/
def bare (req : RequestMatch) : RequestMatch := { req with count := none }

/-- A block whose assertions are all requests without a count. -/
def bareBlock (K : Type) (reqs : List RequestMatch) : List (Assertion K) := reqs.map fun req => .request (bare req)

def BlockPasses (exchanges : List NetworkExchange) (reqs : List RequestMatch) : Prop :=
  ∃ results, evaluate rt evalOther (bareBlock K reqs) exchanges = .ok results ∧ passed results = true

def Accepts (req : RequestMatch) (ex : NetworkExchange) : Prop := matchRequest rt ex req = .ok true

/-- Every request has an exchange of its own that it accepts. -/
def AllPlaced (exchanges : List NetworkExchange) (reqs : List RequestMatch) : Prop :=
  ∃ f : Fin reqs.length → Fin exchanges.length, Function.Injective f ∧ ∀ i, Accepts rt reqs[i] exchanges[f i]

/-- Every assigned exchange is accepted, none is assigned twice, and no assignment of this kind has more requests. -/
def AssignsMost (exchanges : List NetworkExchange) (reqs : List RequestMatch) : Prop :=
  ∃ (assigned : Fin reqs.length → Option (Fin exchanges.length)) (hadCandidate : List Bool),
    assignRequests rt exchanges reqs = .ok ((List.finRange reqs.length).map assigned, hadCandidate) ∧
      OneToOne (fun i j => Accepts rt reqs[i] exchanges[j]) assigned ∧
      ∀ other : Fin reqs.length → Option (Fin exchanges.length),
        OneToOne (fun i j => Accepts rt reqs[i] exchanges[j]) other → (matched other).card ≤ (matched assigned).card

/-- No request raises at any exchange. -/
def Readable (exchanges : List NetworkExchange) (reqs : List RequestMatch) : Prop :=
  ∀ req ∈ reqs, ∀ ex ∈ exchanges, ∀ e, matchRequest rt ex req ≠ .error e

end Evaluate

end Bajutsu.Assertions

/-!
# Blocks of requests

The assignment is a largest one where no request raises, and a block of requests passes exactly where all of them can
be placed. Whether they can does not depend on the order of the requests or of the exchanges.
-/

namespace Bajutsu.Assertions

open Assignment

variable {rt : Runtime} {exchanges : List NetworkExchange} {reqs : List RequestMatch}

def accepts (rt : Runtime) (req : RequestMatch) (ex : NetworkExchange) : Bool :=
  match matchRequest rt ex req with
  | .ok accepted => accepted
  | .error _ => false

theorem accepts_iff {req : RequestMatch} {ex : NetworkExchange} : accepts rt req ex = true ↔ Accepts rt req ex := by
  rw [accepts, Accepts]
  cases matchRequest rt ex req with
  | ok accepted => exact ⟨congrArg Except.ok, Except.ok.inj⟩
  | error e => exact iff_of_false nofun nofun

theorem Readable.accepts (h : Readable rt exchanges reqs) {req : RequestMatch} (hReq : req ∈ reqs) {ex : NetworkExchange}
    (hEx : ex ∈ exchanges) : matchRequest rt ex req = .ok (accepts rt req ex) := by
  rw [Assertions.accepts]
  cases hMatch : matchRequest rt ex req with
  | ok accepted => rfl
  | error e => exact absurd hMatch (h req hReq ex hEx e)

/-! ## The assignment -/

theorem adjacent_ok (h : Readable rt exchanges reqs) {req : RequestMatch} (hReq : req ∈ reqs) :
    adjacent rt exchanges req =
      .ok ((List.finRange exchanges.length).filter fun j => Assertions.accepts rt req exchanges[j]) :=
  PyValue.filterM_eq_ok fun j _ => h.accepts hReq (List.getElem_mem j.isLt)

theorem assignRequests_error (h : ¬Readable rt exchanges reqs) : ∃ e, assignRequests rt exchanges reqs = .error e := by
  simp only [Readable, not_forall, not_not] at h
  obtain ⟨req, hReq, ex, hEx, e, hRaises⟩ := h
  obtain ⟨j, hj, rfl⟩ := List.getElem_of_mem hEx
  have hRow : ∃ e, adjacent rt exchanges req = .error e :=
    PyValue.filterM_eq_error ⟨⟨j, hj⟩, List.mem_finRange _, e, hRaises⟩
  obtain ⟨e', he'⟩ := PyValue.mapM_eq_error ⟨req, hReq, hRow⟩
  exact ⟨e', by rw [assignRequests, he']; rfl⟩

theorem any_accepts (req : RequestMatch) :
    decide ((List.finRange exchanges.length).filter (fun j => Assertions.accepts rt req exchanges[j]) ≠ []) =
      exchanges.any (Assertions.accepts rt req) := by
  rw [Bool.eq_iff_iff, decide_eq_true_iff, List.any_eq_true, ne_eq, List.filter_eq_nil_iff]
  push Not
  constructor
  · rintro ⟨j, -, hAccepts⟩
    exact ⟨exchanges[j], List.getElem_mem j.isLt, hAccepts⟩
  · rintro ⟨ex, hMem, hAccepts⟩
    obtain ⟨j, hj, rfl⟩ := List.getElem_of_mem hMem
    exact ⟨⟨j, hj⟩, List.mem_finRange _, hAccepts⟩

/-- The assignment gives each request none or an exchange that it accepts, none twice, and no assignment gives more
requests one. -/
theorem assignRequests_eq (h : Readable rt exchanges reqs) :
    ∃ assigned : Fin reqs.length → Option (Fin exchanges.length),
      assignRequests rt exchanges reqs =
        .ok ((List.finRange reqs.length).map assigned, reqs.map fun req => exchanges.any (Assertions.accepts rt req)) ∧
        Largest (fun i j => Accepts rt reqs[i] exchanges[j]) Finset.univ assigned := by
  have hRows : reqs.mapM (adjacent rt exchanges) = .ok (reqs.map fun req =>
      (List.finRange exchanges.length).filter fun j => Assertions.accepts rt req exchanges[j]) :=
    PyValue.mapM_eq_ok fun req hReq => adjacent_ok h hReq
  have hHad : ((reqs.map fun req => (List.finRange exchanges.length).filter fun j =>
      Assertions.accepts rt req exchanges[j]).map fun row => decide (row ≠ [])) =
      reqs.map fun req => exchanges.any (Assertions.accepts rt req) := by
    rw [List.map_map]
    exact List.map_congr_left fun req _ => any_accepts req
  refine ⟨_, by rw [← hHad, assignRequests, hRows]; rfl, ?_⟩
  have hLargest := assignEach_all fun i : Fin reqs.length => (reqs.map fun req =>
    (List.finRange exchanges.length).filter fun j => Assertions.accepts rt req exchanges[j]).getD i []
  have hAdj : (fun (i : Fin reqs.length) (j : Fin exchanges.length) => j ∈ (reqs.map fun req =>
      (List.finRange exchanges.length).filter fun j => Assertions.accepts rt req exchanges[j]).getD i []) =
      fun i j => Accepts rt reqs[i] exchanges[j] := by
    funext i j
    simp [List.getD_eq_getElem?_getD, accepts_iff]
  rw [hAdj] at hLargest
  exact hLargest

theorem assignRequests_ok (h : Readable rt exchanges reqs) :
    ∃ (assigned : Fin reqs.length → Option (Fin exchanges.length)) (hadCandidate : List Bool),
      assignRequests rt exchanges reqs = .ok ((List.finRange reqs.length).map assigned, hadCandidate) ∧
        hadCandidate.length = reqs.length ∧
        Largest (fun i j => Accepts rt reqs[i] exchanges[j]) Finset.univ assigned := by
  obtain ⟨assigned, hAssign, hLargest⟩ := assignRequests_eq h
  exact ⟨assigned, _, hAssign, List.length_map .., hLargest⟩

/-! ## The block -/

section Block

variable {K : Type} {evalOther : K → Except Failure AssertionResult}

theorem bareOf_bareBlock (K : Type) (reqs : List RequestMatch) :
    bareOf (bareBlock K reqs) = reqs.zipIdx.map fun item => (item.2, bare item.1) := by
  rw [bareOf, bareBlock, List.zipIdx_map, List.filterMap_map, ← List.filterMap_eq_map]
  rfl

/-- A dictionary that a loop fills holds what the loop made for each key. -/
theorem get_of_mapM {α β : Type} {key : α → Nat} {make : α → Except Failure β} {xs : List α} {items : List (Nat × β)}
    (h : xs.mapM (fun x => do return (key x, ← make x)) = .ok items) (hNodup : (xs.map key).Nodup) :
    ∀ x ∈ xs, ∃ made, make x = .ok made ∧ PyValue.get items (key x) = some made := by
  induction xs generalizing items with
  | nil => exact nofun
  | cons x xs ih =>
    obtain ⟨hNew, hNodup⟩ := List.nodup_cons.mp hNodup
    rw [List.mapM_cons] at h
    cases hMake : make x with
    | error e =>
      rw [hMake] at h
      cases h
    | ok made =>
      rw [hMake] at h
      change (xs.mapM fun x => do return (key x, ← make x)).bind (fun rest => .ok ((key x, made) :: rest)) = .ok items at h
      cases hRest : xs.mapM fun x => do return (key x, ← make x) with
      | error e =>
        rw [hRest] at h
        cases h
      | ok rest =>
        rw [hRest] at h
        cases h
        refine List.forall_mem_cons.mpr ⟨⟨made, hMake, by rw [PyValue.get_cons, if_pos rfl]⟩, fun y hy => ?_⟩
        obtain ⟨made', hMade', hGet⟩ := ih hRest hNodup y hy
        have hKey : key x ≠ key y := fun hEq => hNew (hEq ▸ List.mem_map_of_mem hy)
        exact ⟨made', hMade', by rw [PyValue.get_cons, if_neg hKey, hGet]⟩

theorem requestAssignmentResult_ok_iff {n : Nat} {req : RequestMatch} {place : Option (Fin n)} {matchedAny : Bool} :
    (∃ result, requestAssignmentResult rt exchanges req place matchedAny = .ok result ∧ result.ok = true) ↔
      place.isSome := by
  cases place with
  | some j => exact iff_of_true ⟨_, rfl, rfl⟩ rfl
  | none =>
    refine iff_of_false ?_ nofun
    rintro ⟨result, hIs, hOk⟩
    cases matchedAny with
    | true =>
      cases hIs
      cases hOk
    | false =>
      rw [requestAssignmentResult] at hIs
      cases hHint : dictionaryHint rt exchanges req.toEndpointMatch with
      | error e =>
        rw [hHint] at hIs
        cases hIs
      | ok hint =>
        rw [hHint] at hIs
        cases hIs
        cases hOk

theorem assignBare_bareBlock (hTwo : 2 ≤ reqs.length) {order : List (Option (Fin exchanges.length))}
    {hadCandidate : List Bool}
    (hAssign : assignRequests rt exchanges ((bareOf (bareBlock K reqs)).map Prod.snd) = .ok (order, hadCandidate)) :
    assignBare rt exchanges (bareOf (bareBlock K reqs)) =
      (((bareOf (bareBlock K reqs)).zip order).zip hadCandidate).mapM fun x => do
        return (x.1.1.1, ← requestAssignmentResult rt exchanges x.1.1.2 x.1.2 x.2) := by
  have hLength : 2 ≤ (bareOf (bareBlock K reqs)).length := by simpa [bareOf_bareBlock] using hTwo
  rw [assignBare, if_pos hLength, hAssign]
  rfl

theorem blockPasses_iff_isSome (hTwo : 2 ≤ reqs.length) {order : List (Option (Fin exchanges.length))}
    {hadCandidate : List Bool} (hOrder : order.length = reqs.length) (hHad : hadCandidate.length = reqs.length)
    (hAssign : assignRequests rt exchanges ((bareOf (bareBlock K reqs)).map Prod.snd) = .ok (order, hadCandidate)) :
    BlockPasses rt evalOther exchanges reqs ↔ ∀ place ∈ order, place.isSome := by
  have hBare : (bareOf (bareBlock K reqs)).length = reqs.length := by simp [bareOf_bareBlock]
  have hZip : ((bareOf (bareBlock K reqs)).zip order).length = reqs.length := by
    rw [List.length_zip]
    omega
  have hFirst : ((((bareOf (bareBlock K reqs)).zip order).zip hadCandidate).map Prod.fst) =
      (bareOf (bareBlock K reqs)).zip order := List.map_fst_zip (by omega)
  have hKeys : ((((bareOf (bareBlock K reqs)).zip order).zip hadCandidate).map fun x => x.1.1.1) =
      List.range' 0 reqs.length := by
    calc _ = (((((bareOf (bareBlock K reqs)).zip order).zip hadCandidate).map Prod.fst).map Prod.fst).map Prod.fst := by
          rw [List.map_map, List.map_map]
          rfl
      _ = (bareOf (bareBlock K reqs)).map Prod.fst := by rw [hFirst, List.map_fst_zip (by omega)]
      _ = reqs.zipIdx.map Prod.snd := by
          rw [bareOf_bareBlock, List.map_map]
          rfl
      _ = List.range' 0 reqs.length := List.zipIdx_map_snd ..
  have hPlaces : ((((bareOf (bareBlock K reqs)).zip order).zip hadCandidate).map fun x => x.1.2) = order := by
    calc _ = ((((bareOf (bareBlock K reqs)).zip order).zip hadCandidate).map Prod.fst).map Prod.snd := by
          rw [List.map_map]
          rfl
      _ = order := by rw [hFirst, List.map_snd_zip (by omega)]
  generalize hAll : ((bareOf (bareBlock K reqs)).zip order).zip hadCandidate = all at hKeys hPlaces
  have hSome : (∀ place ∈ order, place.isSome) ↔ ∀ x ∈ all, x.1.2.isSome := by
    rw [← hPlaces, List.forall_mem_map]
  rw [hSome, BlockPasses, evaluate, assignBare_bareBlock hTwo hAssign, hAll]
  have hNodup : (all.map fun x => x.1.1.1).Nodup := hKeys ▸ List.nodup_range'
  cases hItems : all.mapM fun x => do
      return (x.1.1.1, ← requestAssignmentResult rt exchanges x.1.1.2 x.1.2 x.2) with
  | error e =>
    refine iff_of_false (by rintro ⟨_, ⟨⟩, _⟩) fun hPlaced => ?_
    -- A request that is placed has a result.
    have hMade : ∃ items, (all.mapM fun x => do
        return (x.1.1.1, ← requestAssignmentResult rt exchanges x.1.1.2 x.1.2 x.2)) = .ok items ∧
          items.all (fun _ => true) = true := by
      refine PyValue.mapM_all_iff.mpr fun x hx => ?_
      obtain ⟨result, hResult, -⟩ := requestAssignmentResult_ok_iff.mpr (hPlaced x hx)
      exact ⟨(x.1.1.1, result), by rw [hResult]; rfl, rfl⟩
    obtain ⟨items, hOk, -⟩ := hMade
    cases hItems.symm.trans hOk
  | ok items =>
    have hGet := get_of_mapM hItems hNodup
    change (∃ results : List AssertionResult, (bareBlock K reqs).zipIdx.mapM _ = Except.ok results ∧
      results.all (·.ok) = true) ↔ _
    rw [PyValue.mapM_all_iff]
    have hLength : (bareBlock K reqs).length = reqs.length := by simp [bareBlock]
    constructor
    · intro h x hx
      obtain ⟨result, hResult, hItem⟩ := hGet x hx
      have hKey : x.1.1.1 ∈ List.range' 0 reqs.length := hKeys ▸ List.mem_map_of_mem hx
      have hBound : x.1.1.1 < (bareBlock K reqs).length := by
        rw [List.mem_range'_1] at hKey
        omega
      have hMem : ((bareBlock K reqs)[x.1.1.1], x.1.1.1) ∈ (bareBlock K reqs).zipIdx :=
        List.mk_mem_zipIdx_iff_getElem?.mpr (List.getElem?_eq_getElem hBound)
      obtain ⟨result', hIs, hOk⟩ := h _ hMem
      rw [hItem] at hIs
      cases hIs
      exact requestAssignmentResult_ok_iff.mp ⟨_, hResult, hOk⟩
    · intro h item hItem
      have hAt := List.mk_mem_zipIdx_iff_getElem?.mp hItem
      have hBound : item.2 < reqs.length := by
        rw [← hLength]
        exact (List.getElem?_eq_some_iff.mp hAt).1
      have hKey : item.2 ∈ all.map fun x => x.1.1.1 := by
        rw [hKeys, List.mem_range'_1]
        omega
      obtain ⟨x, hx, hEq⟩ := List.mem_map.mp hKey
      obtain ⟨result, hResult, hGot⟩ := hGet x hx
      obtain ⟨result', hResult', hOk⟩ := requestAssignmentResult_ok_iff.mpr (h x hx)
      cases hResult.symm.trans hResult'
      exact ⟨result, by rw [← hEq, hGot], hOk⟩

theorem evalRequest_bare_ok_iff {req : RequestMatch} (h : ∀ ex ∈ exchanges, matchRequest rt ex req = .ok (accepts rt req ex)) :
    (∃ result, evalRequest rt exchanges (bare req) = .ok result ∧ result.ok = true) ↔
      ∃ j : Fin exchanges.length, Accepts rt req exchanges[j] := by
  have hCount : countMatching rt exchanges (bare req) = .ok (exchanges.filter (accepts rt req)).length := by
    have hFilter : (exchanges.filterM fun ex => matchRequest rt ex (bare req)) = .ok (exchanges.filter (accepts rt req)) :=
      PyValue.filterM_eq_ok h
    rw [countMatching, hFilter]
    rfl
  have hSome : 1 ≤ (exchanges.filter (accepts rt req)).length ↔ ∃ j : Fin exchanges.length, Accepts rt req exchanges[j] := by
    rw [Nat.one_le_iff_ne_zero, ne_eq, List.length_eq_zero_iff, List.filter_eq_nil_iff]
    push Not
    constructor
    · rintro ⟨ex, hMem, hAccepts⟩
      obtain ⟨j, hj, rfl⟩ := List.getElem_of_mem hMem
      exact ⟨⟨j, hj⟩, accepts_iff.mp hAccepts⟩
    · rintro ⟨j, hAccepts⟩
      exact ⟨exchanges[j], List.getElem_mem j.isLt, accepts_iff.mpr hAccepts⟩
  rw [← hSome, evalRequest, hCount]
  change (∃ result, (if 1 ≤ (exchanges.filter (accepts rt req)).length then _ else _) = _ ∧ _) ↔ _
  by_cases hOne : 1 ≤ (exchanges.filter (accepts rt req)).length
  · rw [if_pos hOne]
    exact iff_of_true ⟨_, rfl, rfl⟩ hOne
  · rw [if_neg hOne]
    refine iff_of_false ?_ hOne
    rintro ⟨result, hIs, hOk⟩
    cases hHint : dictionaryHint rt exchanges (bare req).toEndpointMatch with
    | error e =>
      rw [hHint] at hIs
      cases hIs
    | ok hint =>
      rw [hHint] at hIs
      cases hIs
      cases hOk

theorem blockPasses_one (hOne : reqs.length < 2) (h : Readable rt exchanges reqs) :
    BlockPasses rt evalOther exchanges reqs ↔ AllPlaced rt exchanges reqs := by
  have hNone : assignBare rt exchanges (bareOf (bareBlock K reqs)) = .ok [] := by
    have hFew : ¬2 ≤ (bareOf (bareBlock K reqs)).length := by simpa [bareOf_bareBlock] using hOne
    rw [assignBare, if_neg hFew]
    rfl
  rw [BlockPasses, evaluate, hNone]
  change (∃ results : List AssertionResult, ((bareBlock K reqs).zipIdx.mapM fun item =>
    evaluateOne rt evalOther exchanges item.1) = Except.ok results ∧ results.all (·.ok) = true) ↔ _
  rw [PyValue.mapM_all_iff]
  have hEach : (∀ item ∈ (bareBlock K reqs).zipIdx,
      ∃ result, evaluateOne rt evalOther exchanges item.1 = .ok result ∧ result.ok = true) ↔
      ∀ i : Fin reqs.length, ∃ j : Fin exchanges.length, Accepts rt reqs[i] exchanges[j] := by
    constructor
    · intro hAll i
      have hMem : ((.request (bare reqs[i]) : Assertion K), i.val) ∈ (bareBlock K reqs).zipIdx := by
        rw [List.mk_mem_zipIdx_iff_getElem?, bareBlock]
        simp
      exact (evalRequest_bare_ok_iff fun ex hEx => h.accepts (List.getElem_mem i.isLt) hEx).mp (hAll _ hMem)
    · rintro hAll ⟨a, i⟩ hItem
      have hAt := List.mk_mem_zipIdx_iff_getElem?.mp hItem
      rw [bareBlock, List.getElem?_map, Option.map_eq_some_iff] at hAt
      obtain ⟨req, hReq, rfl⟩ := hAt
      obtain ⟨hBound, rfl⟩ := List.getElem?_eq_some_iff.mp hReq
      exact (evalRequest_bare_ok_iff fun ex hEx => h.accepts (List.getElem_mem hBound) hEx).mpr (hAll ⟨i, hBound⟩)
  rw [hEach]
  constructor
  · intro hAll
    choose f hf using hAll
    exact ⟨f, fun i j _ => Fin.ext (by omega), hf⟩
  · rintro ⟨f, -, hf⟩ i
    exact ⟨f i, hf i⟩

theorem allPlaced_bare : AllPlaced rt exchanges (reqs.map bare) ↔ AllPlaced rt exchanges reqs := by
  have hLength : (reqs.map bare).length = reqs.length := List.length_map ..
  constructor
  · rintro ⟨f, hInj, hAll⟩
    refine ⟨fun i => f (i.cast hLength.symm), fun i j hEq => ?_, fun i => ?_⟩
    · simpa using hInj hEq
    · have hAt := hAll (i.cast hLength.symm)
      simp only [Fin.getElem_fin, Fin.val_cast, List.getElem_map] at hAt ⊢
      exact hAt
  · rintro ⟨f, hInj, hAll⟩
    refine ⟨fun i => f (i.cast hLength), fun i j hEq => ?_, fun i => ?_⟩
    · simpa using hInj hEq
    · have hAt := hAll (i.cast hLength)
      simp only [Fin.getElem_fin, Fin.val_cast, List.getElem_map] at hAt ⊢
      exact hAt

/-- A block of requests passes where each has an exchange of its own that it accepts. -/
theorem blockPasses_iff (h : Readable rt exchanges reqs) :
    BlockPasses rt evalOther exchanges reqs ↔ AllPlaced rt exchanges reqs := by
  by_cases hTwo : 2 ≤ reqs.length
  · have hReqs : (bareOf (bareBlock K reqs)).map Prod.snd = reqs.map bare := by
      calc (bareOf (bareBlock K reqs)).map Prod.snd = (reqs.zipIdx.map Prod.fst).map bare := by
            rw [bareOf_bareBlock, List.map_map, List.map_map]
            rfl
        _ = reqs.map bare := by rw [List.zipIdx_map_fst]
    have hBare : Readable rt exchanges (reqs.map bare) := fun req hReq ex hEx e => by
      obtain ⟨req', hReq', rfl⟩ := List.mem_map.mp hReq
      exact h req' hReq' ex hEx e
    obtain ⟨assigned, hadCandidate, hAssign, hHad, hLargest⟩ := assignRequests_ok hBare
    have hHad' : hadCandidate.length = reqs.length := by simpa using hHad
    have hOrder : ((List.finRange (reqs.map bare).length).map assigned).length = reqs.length := by simp
    have hAssign' : assignRequests rt exchanges ((bareOf (bareBlock K reqs)).map Prod.snd) =
        .ok ((List.finRange (reqs.map bare).length).map assigned, hadCandidate) := by
      rw [hReqs]
      exact hAssign
    rw [blockPasses_iff_isSome hTwo hOrder hHad' hAssign', List.forall_mem_map, ← allPlaced_bare]
    exact ⟨fun hAll => hLargest.total_iff.mp fun i => hAll i (List.mem_finRange i),
      fun hPlaced i _ => hLargest.total_iff.mpr hPlaced i⟩
  · exact blockPasses_one (by omega) h

theorem Readable.of_perm {exchanges' : List NetworkExchange} {reqs' : List RequestMatch} (h : Readable rt exchanges reqs)
    (hExchanges : exchanges'.Perm exchanges) (hReqs : reqs'.Perm reqs) : Readable rt exchanges' reqs' :=
  fun req hReq ex hEx => h req (hReqs.subset hReq) ex (hExchanges.subset hEx)

/-- The assignment is a largest one, and a block of the requests in any order passes over the exchanges in any order
exactly where all requests can be placed, if and only if no request raises. -/
theorem assign_requests_iff (rt : Runtime) (evalOther : K → Except Failure AssertionResult)
    (exchanges : List NetworkExchange) (reqs : List RequestMatch) :
    (AssignsMost rt exchanges reqs ∧
      ∀ exchanges' reqs', exchanges'.Perm exchanges → reqs'.Perm reqs →
        (BlockPasses rt evalOther exchanges' reqs' ↔ AllPlaced rt exchanges reqs)) ↔
      Readable rt exchanges reqs := by
  constructor
  · rintro ⟨⟨assigned, hadCandidate, hAssign, -⟩, -⟩
    by_contra hRaises
    obtain ⟨e, he⟩ := assignRequests_error hRaises
    exact nomatch hAssign.symm.trans he
  · intro h
    constructor
    · obtain ⟨assigned, hadCandidate, hAssign, -, hLargest⟩ := assignRequests_ok h
      exact ⟨assigned, hadCandidate, hAssign, hLargest.oneToOne,
        fun other hOther => hLargest.largest other hOther (Finset.subset_univ _)⟩
    · intro exchanges' reqs' hExchanges hReqs
      rw [blockPasses_iff (h.of_perm hExchanges hReqs)]
      exact ⟨injective_of_perm hReqs hExchanges, injective_of_perm hReqs.symm hExchanges.symm⟩

end Block

/-- One of the exchanges has a URL that is refused. -/
theorem assign_requests_unread : ¬∀ rt exchanges reqs, AssignsMost rt exchanges reqs := by
  intro h
  obtain ⟨assigned, hadCandidate, hAssign, -⟩ := h plainRuntime [seen "http://[b/?q=1", seen "http://a/?q=1"] [queried "q" "1"]
  have hRaised : assignRequests plainRuntime [seen "http://[b/?q=1", seen "http://a/?q=1"] [queried "q" "1"] =
      .error (.badUrl "http://[b/?q=1") := rfl
  exact nomatch hRaised.symm.trans hAssign

end Bajutsu.Assertions
