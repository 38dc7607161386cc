import Bajutsu.Serve.Uploads

/-!
# What an extraction leaves

A member that goes through lays its file or directory out under the destination. One that does not ends the
extraction, with an exception that the handler around it translates or lets go.
-/

namespace Bajutsu.Serve.Uploads

open FileSystem PyValue

variable {α : Type} {env : Env} {dest target p : Path} {fs mid fin : Fs (List α)} {info : Info α}
  {infos : List (Info α)} {st : Progress α}

/-! ## The chunks -/

/-- The bytes that the loop reads. -/
def bodyOf : List (List α) → List α
  | [] => []
  | [] :: _ => []
  | (b :: chunk) :: chunks => (b :: chunk) ++ bodyOf chunks

/-- What the last read raises. -/
def endOf (readRaises : Option Raised) : List (List α) → Option Raised
  | [] => readRaises
  | [] :: _ => none
  | (_ :: _) :: chunks => endOf readRaises chunks

/-- The bytes that may be written. -/
def cap (env : Env) : Nat := min maxTotalBytes env.room

theorem streamChunks_cons (b : α) (chunk : List α) (chunks : List (List α)) (content : List α) :
    streamChunks env info target st content ((b :: chunk) :: chunks) =
      if maxTotalBytes < st.written + (b :: chunk).length then
        ({ st with written := st.written + (b :: chunk).length }, .error (.bundle .tooManyBytes))
      else if env.room < st.written + (b :: chunk).length then
        ({ st with written := st.written + (b :: chunk).length }, .error (translated info osError))
      else
        match st.fs.write target (content ++ b :: chunk) with
        | none => ({ st with written := st.written + (b :: chunk).length }, .error (translated info osError))
        | some fs =>
          streamChunks env info target ⟨fs, st.written + (b :: chunk).length⟩ (content ++ b :: chunk) chunks := rfl

/-- The chunks fit: the file is whole, and the loop ends as the last read does. -/
theorem streamChunks_fits {chunks : List (List α)} {content : List α} (hFs : fs.write target content = some st.fs)
    (hFits : st.written + (bodyOf chunks).length ≤ cap env) :
    ∃ fin, fs.write target (content ++ bodyOf chunks) = some fin ∧
      streamChunks env info target st content chunks =
        (⟨fin, st.written + (bodyOf chunks).length⟩,
          match endOf info.readRaises chunks with
          | none => .ok ()
          | some r => .error (translated info r)) := by
  induction chunks generalizing st content with
  | nil =>
    refine ⟨st.fs, by rw [bodyOf, List.append_nil, hFs], ?_⟩
    rw [streamChunks, endOf]
    cases info.readRaises <;> rfl
  | cons chunk chunks ih =>
    cases chunk with
    | nil => exact ⟨st.fs, by rw [bodyOf, List.append_nil, hFs], rfl⟩
    | cons b chunk =>
      rw [bodyOf, List.length_append, cap] at hFits
      obtain ⟨mid, hMid⟩ := Fs.write_isSome hFs (content ++ b :: chunk)
      have hMid' : st.fs.write target (content ++ b :: chunk) = some mid := (Fs.write_write hFs _).trans hMid
      have hRest : st.written + (b :: chunk).length + (bodyOf chunks).length ≤ cap env := by
        rw [cap]
        omega
      obtain ⟨fin, hFin, hStream⟩ := @ih ⟨mid, st.written + (b :: chunk).length⟩ (content ++ b :: chunk) hMid hRest
      refine ⟨fin, ?_, ?_⟩
      · rw [bodyOf, ← List.append_assoc, hFin]
      · rw [streamChunks_cons, if_neg (by omega), if_neg (by omega), hMid', endOf, bodyOf,
          List.length_append]
        dsimp only
        rw [hStream, Nat.add_assoc]

theorem streamChunks_crosses {chunks : List (List α)} {content : List α} (hFs : fs.write target content = some st.fs)
    (hStart : st.written ≤ cap env) (hCrosses : cap env < st.written + (bodyOf chunks).length) :
    ∃ e, (streamChunks env info target st content chunks).2 = .error (.bundle e) := by
  induction chunks generalizing st content with
  | nil =>
    rw [bodyOf, List.length_nil] at hCrosses
    omega
  | cons chunk chunks ih =>
    cases chunk with
    | nil =>
      rw [bodyOf, List.length_nil] at hCrosses
      omega
    | cons b chunk =>
      rw [bodyOf, List.length_append] at hCrosses
      rw [streamChunks_cons]
      split
      · exact ⟨_, rfl⟩
      · split
        · exact ⟨_, rfl⟩
        · obtain ⟨mid, hMid⟩ := Fs.write_isSome hFs (content ++ b :: chunk)
          rw [(Fs.write_write hFs _).trans hMid]
          have hBefore : st.written + (b :: chunk).length ≤ cap env := by
            rw [cap]
            omega
          have hAfter : cap env < st.written + (b :: chunk).length + (bodyOf chunks).length := by omega
          exact ih hMid hBefore hAfter

/-! ## One member -/

def unsafeName (name : List Char) : Bool :=
  cleaned name = [] || (cleaned name).contains '\x00' || (cleaned name).head? = some '/' ||
    (pureParts (cleaned name)).contains ['.', '.']

theorem safeTarget_eq (dest : Path) (name : List Char) :
    safeTarget dest name =
      if unsafeName name then .error (.unsafePath name) else .ok (dest ++ pureParts (cleaned name)) := by
  rw [safeTarget, unsafeName]
  have hPrefix : dest.isPrefixOf (dest ++ pureParts (cleaned name)) = true :=
    List.isPrefixOf_iff_prefix.mpr (List.prefix_append _ _)
  simp only [hPrefix, if_true]

namespace Info

def path (dest : Path) (info : Info α) : Path := dest ++ pureParts (cleaned info.filename)

def content (info : Info α) : List α := bodyOf info.chunks

def entry (dest : Path) (info : Info α) : Entry (List α) :=
  ⟨info.path dest, if info.isDir then none else some info.content⟩

theorem entry_dir (dest : Path) (h : info.isDir = true) : info.entry dest = ⟨info.path dest, none⟩ := by rw [entry, h]; rfl

theorem entry_file (dest : Path) (h : info.isDir = false) : info.entry dest = ⟨info.path dest, some info.content⟩ := by
  rw [entry, h]
  rfl

def size (info : Info α) : Nat := if info.isDir then 0 else info.content.length

def ratioOk (info : Info α) : Bool :=
  !(ratioFloor < info.fileSize && 0 < info.compressSize && ratioCrossed info.fileSize info.compressSize)

/-- The checks on a member, and the system takes its path. -/
def accepted (env : Env) (dest : Path) (info : Info α) : Bool :=
  !unsafeName info.filename && !info.symlink && info.ratioOk && !env.refuses (info.path dest)

/-- What reading the member raises. -/
def fault (info : Info α) : Option Raised := info.openRaises <|> endOf info.readRaises info.chunks

def readable (info : Info α) : Bool := info.isDir || info.fault.isNone

end Info

/-- The handler lets the exception go. -/
def uncaught (r : Raised) : Bool := r.exc ≠ .osError && r.exc ≠ .badZipFile

theorem translated_eq (info : Info α) (r : Raised) :
    (uncaught r = true ∧ translated info r = .escaped r) ∨
      (uncaught r = false ∧ ∃ e, translated info r = .bundle e) := by
  obtain ⟨exc, text⟩ := r
  cases exc with
  | osError => exact .inr ⟨rfl, _, rfl⟩
  | badZipFile => exact .inr ⟨rfl, _, rfl⟩
  | _ => exact .inl ⟨rfl, rfl⟩

/-- A member whose exception is let go: it is opened where its directories can be made, and it is read where its file
can be and its bytes fit. -/
def Escapes (env : Env) (dest : Path) (fs : Fs (List α)) (written : Nat) (info : Info α) : Prop :=
  info.accepted env dest = true ∧ info.isDir = false ∧ ((fs.mkdirs (info.path dest).dropLast).isSome = true) ∧
    ((∃ r, info.openRaises = some r ∧ uncaught r = true) ∨
      (info.openRaises = none ∧ fs.isDir (info.path dest) = false ∧ written + info.content.length ≤ cap env ∧
        ∃ r, endOf info.readRaises info.chunks = some r ∧ uncaught r = true))

/-- How a member goes: it is rejected, its exception is let go, or it is laid out. -/
inductive Turn (env : Env) (dest : Path) (st : Progress α) (info : Info α) : Progress α × Except Failure Unit → Prop where
  | rejected (fin : Progress α) (e : BundleError) (hEscapes : ¬Escapes env dest st.fs st.written info)
      (hNot : info.accepted env dest = true → info.readable = true → st.written + info.size ≤ cap env →
        st.fs.place (info.entry dest) = none) :
      Turn env dest st info (fin, .error (.bundle e))
  | escaped (fin : Progress α) (r : Raised) (hEscapes : Escapes env dest st.fs st.written info)
      (hNot : info.readable = false) : Turn env dest st info (fin, .error (.escaped r))
  | done (fs : Fs (List α)) (hAccepted : info.accepted env dest = true) (hReadable : info.readable = true)
      (hFits : st.written + info.size ≤ cap env) (hPlace : st.fs.place (info.entry dest) = some fs)
      (hEscapes : ¬Escapes env dest st.fs st.written info) :
      Turn env dest st info (⟨fs, st.written + info.size⟩, .ok ())

theorem Turn.unaccepted (h : info.accepted env dest = false) (fin : Progress α) (e : BundleError) :
    Turn env dest st info (fin, .error (.bundle e)) := by
  refine .rejected fin e (fun hEscapes => ?_) fun hAccepted => ?_
  · cases h.symm.trans hEscapes.1
  · cases h.symm.trans hAccepted

theorem Turn.raises (hFault : info.readable = false) (r : Raised) (fin : Progress α)
    (hEscapes : Escapes env dest st.fs st.written info ↔ uncaught r = true) :
    Turn env dest st info (fin, .error (translated info r)) := by
  obtain ⟨hUncaught, hSame⟩ | ⟨hCaught, e, hSame⟩ := translated_eq info r
  · rw [hSame]
    exact .escaped fin r (hEscapes.mpr hUncaught) hFault
  · rw [hSame]
    refine .rejected fin e (fun h => ?_) fun _ hReadable => ?_
    · cases hCaught.symm.trans (hEscapes.mp h)
    · cases hFault.symm.trans hReadable

theorem turn_dir (hAccepted : info.accepted env dest = true) (hDir : info.isDir = true) (hStart : st.written ≤ cap env) :
    Turn env dest st info
      (match st.fs.mkdirs (info.path dest) with
      | none => (st, .error (translated info osError))
      | some fs => ({ st with fs }, .ok ())) := by
  have hNoEscape : ¬Escapes env dest st.fs st.written info := fun h => nomatch hDir.symm.trans h.2.1
  have hPlace : st.fs.place (info.entry dest) = st.fs.mkdirs (info.path dest) := by
    rw [Info.entry_dir dest hDir, Fs.place_dir]
  cases hMake : st.fs.mkdirs (info.path dest) with
  | none => exact .rejected st _ hNoEscape fun _ _ _ => hPlace.trans hMake
  | some fs =>
    have hSize : st.written + info.size = st.written := by rw [Info.size, hDir, if_pos rfl, Nat.add_zero]
    have hDone := @Turn.done α env dest st info fs hAccepted (by rw [Info.readable, hDir]; rfl) (by omega)
      (hPlace.trans hMake) hNoEscape
    rw [hSize] at hDone
    exact hDone

theorem turn_file {mid : Fs (List α)} (hAccepted : info.accepted env dest = true) (hDir : info.isDir = false)
    (hStart : st.written ≤ cap env) (hMid : st.fs.mkdirs (info.path dest).dropLast = some mid) :
    Turn env dest st info
      (match info.openRaises with
      | some r => ({ st with fs := mid }, .error (translated info r))
      | none =>
        match mid.write (info.path dest) [] with
        | none => ({ st with fs := mid }, .error (translated info osError))
        | some fs => streamChunks env info (info.path dest) { st with fs } [] info.chunks) := by
  have hMade : (st.fs.mkdirs (info.path dest).dropLast).isSome = true := by rw [hMid]; rfl
  have hSize : info.size = info.content.length := by rw [Info.size, hDir]; rfl
  have hPlace : st.fs.place (info.entry dest) = mid.write (info.path dest) info.content := by
    rw [Info.entry_file dest hDir, Fs.place_file, hMid, Option.bind_some]
  cases hOpen : info.openRaises with
  | some r =>
    refine .raises (by rw [Info.readable, hDir, Info.fault, hOpen]; rfl) r _ ?_
    rw [Escapes, hOpen]
    simp [hAccepted, hDir, hMade]
  | none =>
    have hFault : info.fault = endOf info.readRaises info.chunks := by rw [Info.fault, hOpen]; rfl
    have hSameDir := Fs.mid_isDir hMid
    dsimp only
    cases hWrite : mid.write (info.path dest) [] with
    | none =>
      have hParent : mid.isDir (info.path dest).dropLast = true :=
        ((Fs.mkdirs_isDir hMid).2 _).mpr (.inr (List.prefix_refl _))
      have hIsDir : mid.isDir (info.path dest) = true := by
        rw [Fs.write, hParent] at hWrite
        by_contra hNot
        rw [Bool.not_eq_true] at hNot
        rw [hNot] at hWrite
        cases hWrite
      refine .rejected _ _ ?_ fun _ _ _ => ?_
      · rintro ⟨-, -, -, ⟨r, hSome, -⟩ | ⟨-, hNotDir, -⟩⟩
        · cases hOpen.symm.trans hSome
        · cases (hSameDir.symm.trans hIsDir).symm.trans hNotDir
      · rw [hPlace, Fs.write, hIsDir]
        rfl
    | some fs =>
      dsimp only
      have hNotDir : st.fs.isDir (info.path dest) = false := hSameDir.symm.trans (Fs.write_isDir hWrite).1
      have hEscapes : Escapes env dest st.fs st.written info ↔ st.written + info.content.length ≤ cap env ∧
          ∃ r, endOf info.readRaises info.chunks = some r ∧ uncaught r = true := by
        rw [Escapes]
        simp [hAccepted, hDir, hMade, hOpen, hNotDir]
      rcases Nat.lt_or_ge (cap env) (st.written + info.content.length) with hCrosses | hFits
      · obtain ⟨e, hError⟩ := @streamChunks_crosses α env (info.path dest) mid info { st with fs } info.chunks []
          hWrite hStart hCrosses
        have hPair : streamChunks env info (info.path dest) { st with fs } [] info.chunks =
            ((streamChunks env info (info.path dest) { st with fs } [] info.chunks).1, .error (.bundle e)) := by
          rw [← hError]
        rw [hPair]
        refine .rejected _ e (fun h => ?_) fun _ _ hFits => ?_
        · have hLess := (hEscapes.mp h).1
          omega
        · omega
      · obtain ⟨fin, hFin, hStream⟩ := @streamChunks_fits α env (info.path dest) mid info { st with fs } info.chunks []
          hWrite hFits
        rw [List.nil_append] at hFin
        rw [hStream]
        cases hEnd : endOf info.readRaises info.chunks with
        | none =>
          have hReadable : info.readable = true := by rw [Info.readable, hFault, hEnd, Option.isNone_none, Bool.or_true]
          have hDone := @Turn.done α env dest st info fin hAccepted hReadable (by rw [hSize]; exact hFits)
            (hPlace.trans hFin) (by rw [hEscapes, hEnd]; rintro ⟨_, _, ⟨⟩, _⟩)
          rw [hSize] at hDone
          exact hDone
        | some r =>
          refine .raises (by rw [Info.readable, hDir, hFault, hEnd]; rfl) r _ ?_
          rw [hEscapes, hEnd]
          simp [hFits]

theorem extractInfo_turn (hStart : st.written ≤ cap env) : Turn env dest st info (extractInfo env dest st info) := by
  rw [extractInfo, safeTarget_eq]
  cases hName : unsafeName info.filename with
  | true => exact .unaccepted (by simp [Info.accepted, hName]) _ _
  | false =>
    simp only [Bool.false_eq_true, if_false]
    cases hLink : info.symlink with
    | true => exact .unaccepted (by simp [Info.accepted, hLink]) _ _
    | false =>
      cases hRatio : info.ratioOk with
      | false =>
        have hCheck : checkRatio info = .error (.ratioTooHigh info.filename) := by
          rw [Info.ratioOk, Bool.not_eq_false'] at hRatio
          rw [checkRatio, hRatio]
          rfl
        rw [hCheck]
        exact .unaccepted (by simp [Info.accepted, hRatio]) _ _
      | true =>
        have hCheck : checkRatio info = .ok () := by
          rw [Info.ratioOk, Bool.not_eq_true'] at hRatio
          rw [checkRatio, hRatio]
          rfl
        rw [hCheck]
        change Turn env dest st info (if env.refuses (info.path dest) then _ else _)
        cases hRefuses : env.refuses (info.path dest) with
        | true => exact .unaccepted (by simp [Info.accepted, hRefuses]) _ _
        | false =>
          have hAccepted : info.accepted env dest = true := by simp [Info.accepted, hName, hLink, hRatio, hRefuses]
          cases hDir : info.isDir with
          | true => exact turn_dir hAccepted hDir hStart
          | false =>
            change Turn env dest st info (match st.fs.mkdirs (info.path dest).dropLast with | none => _ | some fs => _)
            cases hMid : st.fs.mkdirs (info.path dest).dropLast with
            | none =>
              refine .rejected _ _ (fun h => ?_) fun _ _ _ => ?_
              · have hMade := h.2.2.1
                rw [hMid] at hMade
                cases hMade
              · rw [Info.entry_file dest hDir, Fs.place_file, hMid, Option.bind_none]
            | some mid => exact turn_file hAccepted hDir hStart hMid

/-! ## The members -/

def total (infos : List (Info α)) : Nat := (infos.map Info.size).sum

/-- Members that all go through. -/
structure GoesThrough (env : Env) (dest : Path) (st : Progress α) (infos : List (Info α)) (fin : Progress α) : Prop where
  accepted : ∀ info ∈ infos, info.accepted env dest = true
  readable : ∀ info ∈ infos, info.readable = true
  written : fin.written = st.written + total infos
  fits : fin.written ≤ cap env
  placed : st.fs.placeAll (infos.map (Info.entry dest)) = some fin.fs

/-- A member after some that go through has its exception let go. -/
def EscapesAmong (env : Env) (dest : Path) (st : Progress α) (infos : List (Info α)) : Prop :=
  ∃ before info after mid, infos = before ++ info :: after ∧ GoesThrough env dest st before mid ∧
    Escapes env dest mid.fs mid.written info

theorem GoesThrough.nil (hStart : st.written ≤ cap env) : GoesThrough env dest st [] st :=
  ⟨nofun, nofun, rfl, hStart, rfl⟩

theorem goesThrough_cons {fin : Progress α} (hAccepted : info.accepted env dest = true)
    (hReadable : info.readable = true) (hPlace : st.fs.place (info.entry dest) = some fs) :
    GoesThrough env dest st (info :: infos) fin ↔ GoesThrough env dest ⟨fs, st.written + info.size⟩ infos fin := by
  have hTotal : total (info :: infos) = info.size + total infos := List.sum_cons
  have hAll : st.fs.placeAll ((info :: infos).map (Info.entry dest)) = fs.placeAll (infos.map (Info.entry dest)) := by
    rw [List.map_cons, Fs.placeAll_cons, hPlace, Option.bind_some]
  constructor
  · intro h
    refine ⟨fun x hx => h.accepted x (List.mem_cons_of_mem _ hx), fun x hx => h.readable x (List.mem_cons_of_mem _ hx),
      ?_, h.fits, hAll ▸ h.placed⟩
    rw [h.written, hTotal, Nat.add_assoc]
  · intro h
    refine ⟨List.forall_mem_cons.mpr ⟨hAccepted, h.accepted⟩, List.forall_mem_cons.mpr ⟨hReadable, h.readable⟩, ?_,
      h.fits, hAll.trans h.placed⟩
    rw [h.written, hTotal, Nat.add_assoc]

theorem GoesThrough.first {fin : Progress α} (h : GoesThrough env dest st (info :: infos) fin) :
    info.accepted env dest = true ∧ info.readable = true ∧ st.written + info.size ≤ cap env ∧
      ∃ fs, st.fs.place (info.entry dest) = some fs := by
  have hTotal : total (info :: infos) = info.size + total infos := List.sum_cons
  have hWritten := h.written
  have hFits := h.fits
  obtain ⟨fs, hPlace, -⟩ := Option.bind_eq_some_iff.mp h.placed
  exact ⟨h.accepted info List.mem_cons_self, h.readable info List.mem_cons_self, by omega, fs, hPlace⟩

/-- How the members go. -/
inductive Course (env : Env) (dest : Path) (st : Progress α) (infos : List (Info α)) :
    Progress α × Except Failure Unit → Prop where
  | rejected (fin : Progress α) (e : BundleError) (hEscapes : ¬EscapesAmong env dest st infos)
      (hNot : ∀ fin, ¬GoesThrough env dest st infos fin) : Course env dest st infos (fin, .error (.bundle e))
  | escaped (fin : Progress α) (r : Raised) (hEscapes : EscapesAmong env dest st infos) :
      Course env dest st infos (fin, .error (.escaped r))
  | done (fin : Progress α) (hThrough : GoesThrough env dest st infos fin)
      (hEscapes : ¬EscapesAmong env dest st infos) : Course env dest st infos (fin, .ok ())

theorem escapesAmong_cons (hAccepted : info.accepted env dest = true) (hReadable : info.readable = true)
    (hPlace : st.fs.place (info.entry dest) = some fs) (hEscapes : ¬Escapes env dest st.fs st.written info) :
    EscapesAmong env dest st (info :: infos) ↔ EscapesAmong env dest ⟨fs, st.written + info.size⟩ infos := by
  constructor
  · rintro ⟨before, x, after, mid, hSplit, hBefore, hx⟩
    cases before with
    | nil =>
      obtain ⟨rfl, rfl⟩ := List.cons.inj hSplit
      have hSame : mid = st := by
        have hFs := Option.some.inj hBefore.placed
        have hWritten : mid.written = st.written := hBefore.written
        obtain ⟨fs, written⟩ := mid
        cases hFs
        cases hWritten
        rfl
      rw [hSame] at hx
      exact (hEscapes hx).elim
    | cons b before =>
      obtain ⟨rfl, rfl⟩ := List.cons.inj hSplit
      exact ⟨before, x, after, mid, rfl, (goesThrough_cons hAccepted hReadable hPlace).mp hBefore, hx⟩
  · rintro ⟨before, x, after, mid, rfl, hBefore, hx⟩
    exact ⟨info :: before, x, after, mid, rfl, (goesThrough_cons hAccepted hReadable hPlace).mpr hBefore, hx⟩

theorem extractEach_course (hStart : st.written ≤ cap env) : Course env dest st infos (extractEach env dest st infos) := by
  induction infos generalizing st with
  | nil =>
    refine .done st (.nil hStart) ?_
    rintro ⟨before, x, after, mid, hSplit, -⟩
    exact nomatch List.append_eq_nil_iff.mp hSplit.symm
  | cons info infos ih =>
    have hTurn : Turn env dest st info (extractInfo env dest st info) := extractInfo_turn hStart
    rw [extractEach]
    generalize extractInfo env dest st info = out at hTurn
    cases hTurn with
    | rejected fin e hEscapes hNot =>
      have hNone (fin : Progress α) (infos : List (Info α)) : ¬GoesThrough env dest st (info :: infos) fin := by
        intro hThrough
        obtain ⟨hAccepted, hReadable, hFits, fs, hPlace⟩ := hThrough.first
        cases hPlace.symm.trans (hNot hAccepted hReadable hFits)
      refine .rejected fin e ?_ fun fin => hNone fin infos
      rintro ⟨before, x, after, mid, hSplit, hBefore, hx⟩
      cases before with
      | nil =>
        obtain ⟨rfl, rfl⟩ := List.cons.inj hSplit
        have hWritten : mid.written = st.written := hBefore.written
        rw [← Option.some.inj hBefore.placed, hWritten] at hx
        exact hEscapes hx
      | cons b before =>
        obtain ⟨rfl, rfl⟩ := List.cons.inj hSplit
        exact hNone mid before hBefore
    | escaped fin r hEscapes hNot => exact .escaped fin r ⟨[], info, infos, st, rfl, .nil hStart, hEscapes⟩
    | done fs hAccepted hReadable hFits hPlace hEscapes =>
      have hRest := @ih ⟨fs, st.written + info.size⟩ hFits
      dsimp only
      generalize extractEach env dest ⟨fs, st.written + info.size⟩ infos = out at hRest
      cases hRest with
      | rejected fin e hNone hNot =>
        refine .rejected fin e ?_ fun fin hThrough => ?_
        · rwa [escapesAmong_cons hAccepted hReadable hPlace hEscapes]
        · exact hNot fin ((goesThrough_cons hAccepted hReadable hPlace).mp hThrough)
      | escaped fin r hSome => exact .escaped fin r ((escapesAmong_cons hAccepted hReadable hPlace hEscapes).mpr hSome)
      | done fin hThrough hNone =>
        refine .done fin ((goesThrough_cons hAccepted hReadable hPlace).mpr hThrough) ?_
        rwa [escapesAmong_cons hAccepted hReadable hPlace hEscapes]

/-! ## What is not under the destination -/

/-- Only what is under the directory has changed. -/
def Under (dest : Path) (fs fin : Fs (List α)) : Prop :=
  ∀ p, ¬dest <+: p → fin.file p = fs.file p ∧ (fin.isDir p = true ↔ fs.isDir p = true)

theorem Under.refl (dest : Path) (fs : Fs (List α)) : Under dest fs fs := fun _ _ => ⟨rfl, .rfl⟩

theorem Under.trans (h : Under dest fs mid) (h' : Under dest mid fin) : Under dest fs fin := by
  intro p hp
  obtain ⟨hFile, hDir⟩ := h p hp
  obtain ⟨hFile', hDir'⟩ := h' p hp
  exact ⟨hFile'.trans hFile, hDir'.trans hDir⟩

/-- A file system with the destination among its directories. -/
structure Stands (dest : Path) (fs : Fs (List α)) : Prop where
  wf : fs.Wf
  dest : fs.isDir dest = true

theorem Stands.mkdirs (h : Stands dest fs) (hTarget : dest <+: target ∨ target = dest.dropLast)
    (hMake : fs.mkdirs target = some mid) : Stands dest mid ∧ Under dest fs mid := by
  obtain ⟨hFiles, hDirs⟩ := Fs.mkdirs_isDir hMake
  refine ⟨⟨(h.wf.mkdirEach hMake).1, (hDirs dest).mpr (.inl h.dest)⟩, fun p hp => ⟨Fs.file_eq_of_files hFiles p, ?_⟩⟩
  rw [hDirs]
  refine or_iff_left_of_imp fun hPrefix => ?_
  -- A directory on the way to the destination is there.
  have hAbove : p <+: dest := by
    obtain hUnder | rfl := hTarget
    · exact (List.prefix_or_prefix_of_prefix hPrefix hUnder).resolve_right hp
    · exact hPrefix.trans (List.dropLast_prefix dest)
  exact h.wf.isDir_of_isDir h.dest hAbove

theorem Stands.write {content : List α} (h : Stands dest fs) (hTarget : dest <+: target)
    (hWrite : fs.write target content = some mid) : Stands dest mid ∧ Under dest fs mid := by
  obtain ⟨hMidWf, -, hOther⟩ := h.wf.write hWrite
  obtain ⟨-, -, rfl⟩ := Fs.write_isDir hWrite
  refine ⟨⟨hMidWf, h.dest⟩, fun p hp => ⟨hOther p ?_, .rfl⟩⟩
  rintro rfl
  exact hp hTarget

theorem streamChunks_under {chunks : List (List α)} {content : List α} (h : Stands dest st.fs) (hTarget : dest <+: target) :
    Stands dest (streamChunks env info target st content chunks).1.fs ∧
      Under dest st.fs (streamChunks env info target st content chunks).1.fs := by
  induction chunks generalizing st content with
  | nil =>
    rw [streamChunks]
    cases info.readRaises <;> exact ⟨h, .refl dest st.fs⟩
  | cons chunk chunks ih =>
    cases chunk with
    | nil => exact ⟨h, .refl dest st.fs⟩
    | cons b chunk =>
      rw [streamChunks_cons]
      split
      · exact ⟨h, .refl dest st.fs⟩
      · split
        · exact ⟨h, .refl dest st.fs⟩
        · cases hWrite : st.fs.write target (content ++ b :: chunk) with
          | none => exact ⟨h, .refl dest st.fs⟩
          | some fs =>
            obtain ⟨hStands, hUnder⟩ := h.write hTarget hWrite
            obtain ⟨hStands', hUnder'⟩ := @ih ⟨fs, st.written + (b :: chunk).length⟩ (content ++ b :: chunk) hStands
            exact ⟨hStands', hUnder.trans hUnder'⟩

theorem extractInfo_under (h : Stands dest st.fs) :
    Stands dest (extractInfo env dest st info).1.fs ∧ Under dest st.fs (extractInfo env dest st info).1.fs := by
  have hSame : Stands dest st.fs ∧ Under dest st.fs st.fs := ⟨h, .refl dest st.fs⟩
  rw [extractInfo, safeTarget_eq]
  split
  · exact hSame
  · rename_i target hTarget
    obtain rfl : info.path dest = target := by
      split at hTarget
      · cases hTarget
      · exact Except.ok.inj hTarget
    have hPath : dest <+: info.path dest := List.prefix_append _ _
    have hParent : dest <+: (info.path dest).dropLast ∨ (info.path dest).dropLast = dest.dropLast := by
      rw [Info.path]
      rcases eq_or_ne (pureParts (cleaned info.filename)) [] with hNil | hNe
      · exact .inr (by rw [hNil, List.append_nil])
      · exact .inl (by rw [List.dropLast_append_of_ne_nil hNe]; exact List.prefix_append _ _)
    split
    · exact hSame
    · split
      · exact hSame
      · split
        · exact hSame
        · split
          · split
            · exact hSame
            · rename_i fs hMake
              exact h.mkdirs (.inl hPath) hMake
          · split
            · exact hSame
            · rename_i mid hMake
              obtain ⟨hStands, hUnder⟩ := h.mkdirs hParent hMake
              split
              · exact ⟨hStands, hUnder⟩
              · split
                · exact ⟨hStands, hUnder⟩
                · rename_i fs hWrite
                  obtain ⟨hStands', hUnder'⟩ := hStands.write hPath hWrite
                  obtain ⟨hStands'', hUnder''⟩ := @streamChunks_under α env dest (info.path dest) info
                    { st with fs } info.chunks [] hStands' hPath
                  exact ⟨hStands'', hUnder.trans (hUnder'.trans hUnder'')⟩

theorem extractEach_under (h : Stands dest st.fs) :
    Stands dest (extractEach env dest st infos).1.fs ∧ Under dest st.fs (extractEach env dest st infos).1.fs := by
  induction infos generalizing st with
  | nil => exact ⟨h, .refl dest st.fs⟩
  | cons info infos ih =>
    obtain ⟨hStands, hUnder⟩ := @extractInfo_under α env dest info st h
    rw [extractEach]
    generalize extractInfo env dest st info = out at hStands hUnder
    obtain ⟨mid, result⟩ := out
    cases result with
    | error e => exact ⟨hStands, hUnder⟩
    | ok u =>
      obtain ⟨hStands', hUnder'⟩ := ih hStands
      exact ⟨hStands', hUnder.trans hUnder'⟩

/-! ## The whole bundle -/

/-- A full extraction of the members: each was read to its end and stands strictly under the destination, of two at one
path the last. -/
structure Extracted (dest : Path) (fs : Fs (List α)) (infos : List (Info α)) (fin : Fs (List α)) : Prop where
  under : ∀ info ∈ infos, dest <+: info.path dest ∧ info.path dest ≠ dest
  readable : ∀ info ∈ infos, info.readable = true
  bounded : total infos ≤ maxTotalBytes
  dirs : ∀ p, fin.isDir p = true ↔ fs.isDir p = true ∨ ∃ info ∈ infos, p <+: (info.entry dest).dir
  files : ∀ p, fin.file p = (Fs.lastAt p (infos.map (Info.entry dest)) <|> fs.file p)

/-- All members are extracted, or a `BundleError` is raised. Nothing outside the destination is touched. -/
def ExtractsOrRejects (env : Env) (dest : Path) (fs : Fs (List α)) (archive : Archive α) : Prop :=
  Under dest fs (extractBundle env dest fs archive).1 ∧
    match (extractBundle env dest fs archive).2 with
    | .ok () => ∃ infos, archive = .ok infos ∧ Extracted dest fs infos (extractBundle env dest fs archive).1
    | .error (.bundle _) => True
    | .error (.escaped _) => False

/-- The zip opens or is no zip. It has too many members, or no member that is reached has its exception let go, and
where all go through none is the destination itself. -/
def Caught (env : Env) (dest : Path) (fs : Fs (List α)) : Archive α → Prop
  | .error r => r.exc = .badZipFile
  | .ok infos =>
    maxEntries < infos.length ∨ (¬EscapesAmong env dest ⟨fs, 0⟩ infos ∧
      ((∃ fin, GoesThrough env dest ⟨fs, 0⟩ infos fin) → ∀ info ∈ infos, info.path dest ≠ dest))

theorem extractBundle_under (h : Stands dest fs) (archive : Archive α) :
    Under dest fs (extractBundle env dest fs archive).1 := by
  cases archive with
  | error r => exact .refl dest fs
  | ok infos =>
    rw [extractBundle]
    split
    · exact .refl dest fs
    · exact (@extractEach_under α env dest infos ⟨fs, 0⟩ h).2

theorem GoesThrough.extracted {fin : Progress α} (hWf : fs.Wf) (h : GoesThrough env dest ⟨fs, 0⟩ infos fin)
    (hUnder : ∀ info ∈ infos, info.path dest ≠ dest) : Extracted dest fs infos fin.fs := by
  obtain ⟨-, hDirs, hFiles⟩ := hWf.placeAll h.placed
  refine ⟨fun info hMem => ⟨List.prefix_append _ _, hUnder info hMem⟩, h.readable, ?_, fun p => ?_, hFiles⟩
  · have hWritten := h.written
    have hFits := h.fits
    rw [cap] at hFits
    dsimp only at hWritten
    omega
  · rw [hDirs]
    simp only [List.mem_map, exists_exists_and_eq_and]

/-- An extraction does what it says just when every exception is caught. -/
theorem extracts_iff (h : Stands dest fs) (archive : Archive α) :
    ExtractsOrRejects env dest fs archive ↔ Caught env dest fs archive := by
  rw [ExtractsOrRejects, and_iff_right (extractBundle_under h archive)]
  cases archive with
  | error r =>
    rw [extractBundle, Caught]
    by_cases hExc : r.exc = .badZipFile
    · rw [if_pos hExc]
      exact iff_of_true trivial hExc
    · rw [if_neg hExc]
      exact iff_of_false id hExc
  | ok infos =>
    rw [Caught, extractBundle]
    by_cases hMany : maxEntries < infos.length
    · rw [if_pos hMany]
      exact iff_of_true trivial (.inl hMany)
    · rw [if_neg hMany, or_iff_right hMany]
      have hCourse := @extractEach_course α env dest infos ⟨fs, 0⟩ (Nat.zero_le _)
      generalize extractEach env dest ⟨fs, 0⟩ infos = out at hCourse
      cases hCourse with
      | rejected fin e hEscapes hNot =>
        refine iff_of_true trivial ⟨hEscapes, ?_⟩
        rintro ⟨fin, hThrough⟩
        exact (hNot fin hThrough).elim
      | escaped fin r hEscapes => exact iff_of_false id fun hCaught => hCaught.1 hEscapes
      | done fin hThrough hEscapes =>
        constructor
        · rintro ⟨found, hSame, hExtracted⟩
          cases hSame
          exact ⟨hEscapes, fun _ info hMem => (hExtracted.under info hMem).2⟩
        · rintro ⟨-, hUnder⟩
          exact ⟨infos, rfl, hThrough.extracted h.wf (hUnder ⟨fin, hThrough⟩)⟩

end Bajutsu.Serve.Uploads
