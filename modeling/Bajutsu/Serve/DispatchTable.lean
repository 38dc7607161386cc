import Bajutsu.Serve.Dispatch

/-!
# The routes of the table, apart

A template of the table has at most one parameter. Two templates of one method that a path could match are the same,
but for an archive and a file of a run, of which the archive comes first.
-/

namespace Bajutsu.Serve.Dispatch

open FileSystem Gate PathPattern PercentDecoding UrlSplit

variable {site : Site} {method : String} {route : Route} {decoded template : Text} {params : List (Name × Text)}

/-! ## Templates -/

/-- What stands in the braces of a template, and what stands after them. -/
def innerOf (template : Text) : Text := (template.drop ((literal template).length + 1)).takeWhile (· ≠ '}')

def afterOf (template : Text) : Text := template.drop ((literal template).length + (innerOf template).length + 2)

def hasParam (template : Text) : Bool := template.contains '{'

/-- The template is the text before its parameter, the parameter in braces and the text after it. -/
structure OneParam (template : Text) : Prop where
  eq : template = literal template ++ '{' :: (innerOf template ++ '}' :: afterOf template)
  inner : '/' ∉ innerOf template
  after : '{' ∉ afterOf template

instance (template : Text) : Decidable (OneParam template) :=
  decidable_of_iff
    (template = literal template ++ '{' :: (innerOf template ++ '}' :: afterOf template) ∧
      '/' ∉ innerOf template ∧ '{' ∉ afterOf template)
    ⟨fun h => ⟨h.1, h.2.1, h.2.2⟩, fun h => ⟨h.eq, h.inner, h.after⟩⟩

def rooted : Text → Bool
  | ['/'] => true
  | '/' :: c :: _ => c ≠ '/' && c ≠ '{'
  | _ => false

/-- Where the parameter is not in the midst of a segment. -/
def divided (template : Text) : Bool :=
  (literal template).getLast? = some '/' && (afterOf template = [] || (afterOf template).head? = some '/')

def isRunPath (path : String) : Bool := path = archivePath || path = runFilePath

/-- What every route of the table meets. -/
def checked (route : Route) : Bool :=
  let template := route.path.toList
  rooted template && !template.contains '%' && (!isRunPath route.path || route.method = "GET") &&
    (!hasParam template || decide (OneParam template) && (route.path = modulePath || divided template))

/-- No path matches both templates, the first of which has a parameter. -/
def apart (a b : Text) : Bool :=
  (if hasParam b then !comparable (literal a) (literal b) || !comparable (afterOf a).reverse (afterOf b).reverse
    else !(literal a).isPrefixOf b || !(afterOf a).isSuffixOf b) ||
    (!isRest (innerOf a) && !(hasParam b && isRest (innerOf b)) && a.count '/' ≠ b.count '/')

/-- The routes that a path which the first one matches could match too are those of its own path. -/
def alone (a b : Route) : Bool :=
  a.method ≠ b.method || a.path = b.path || isRunPath a.path && isRunPath b.path || apart a.path.toList b.path.toList

theorem table_checked : (allRoutes.all checked &&
    (allRoutes.filter fun route => hasParam route.path.toList).all fun a => allRoutes.all (alone a)) = true := by
  unfold checked alone
  simp only [toList_eq_asciiChars]
  decide +kernel

structure Checked (route : Route) : Prop where
  rooted : rooted route.path.toList = true
  plain : '%' ∉ route.path.toList
  get : isRunPath route.path = true → route.method = "GET"
  one : hasParam route.path.toList = true → OneParam route.path.toList
  divided : hasParam route.path.toList = true → route.path ≠ modulePath → divided route.path.toList = true

theorem checked_of_mem (h : route ∈ allRoutes) : Checked route := by
  have hAll := List.all_eq_true.mp (Bool.and_eq_true_iff.mp table_checked).1 route h
  simp only [checked, Bool.and_eq_true, Bool.or_eq_true, Bool.not_eq_true', decide_eq_true_eq] at hAll
  obtain ⟨⟨⟨hRooted, hPlain⟩, hGet⟩, hOne⟩ := hAll
  refine ⟨hRooted, by simpa using hPlain, fun hRun => ?_, fun hParam => ?_, fun hParam hNe => ?_⟩
  · obtain hNone | hSome := hGet
    · cases hRun.symm.trans hNone
    · exact hSome
  · obtain hNone | hSome := hOne
    · cases hParam.symm.trans hNone
    · exact hSome.1
  · obtain hNone | hSome := hOne
    · cases hParam.symm.trans hNone
    · exact hSome.2.resolve_left hNe

theorem alone_of_mem {a b : Route} (ha : a ∈ allRoutes) (hb : b ∈ allRoutes) (hParam : hasParam a.path.toList = true)
    (hMethod : a.method = b.method) (hNe : a.path ≠ b.path) (hRun : ¬(isRunPath a.path ∧ isRunPath b.path)) :
    apart a.path.toList b.path.toList = true := by
  have hAll := List.all_eq_true.mp (Bool.and_eq_true_iff.mp table_checked).2 a (List.mem_filter.mpr ⟨ha, hParam⟩)
  have hPair := List.all_eq_true.mp hAll b hb
  simpa [alone, hMethod, hNe, hRun] using hPair

/-! ## What a template binds -/

/-- The value that a parameter takes. -/
def Takes (template value : Text) : Prop := isRest (innerOf template) = true ∨ (value ≠ [] ∧ '/' ∉ value)

def nameOf (template : Text) : Name :=
  if isRest (innerOf template) then (innerOf template).take ((innerOf template).length - ":path".length)
  else innerOf template

theorem no_brace_literal (template : Text) : '{' ∉ literal template := by
  intro hMem
  have hNot := List.mem_takeWhile_imp hMem
  simp at hNot

theorem no_brace_inner (template : Text) : '}' ∉ innerOf template := by
  intro hMem
  have hNot := List.mem_takeWhile_imp hMem
  simp at hNot

theorem bind_plain_iff (h : hasParam template = false) :
    bind (compilePath template) decoded = some params ↔ decoded = template ∧ params = [] := by
  have hBrace : '{' ∉ template := by simpa [hasParam] using h
  rw [compilePath_text hBrace, bind_text_iff]

theorem bind_one_iff (h : OneParam template) :
    bind (compilePath template) decoded = some params ↔
      ∃ value, decoded = literal template ++ (value ++ afterOf template) ∧ Takes template value ∧
        params = [(nameOf template, value)] := by
  have hCompiled : compilePath template =
      [.text (literal template), parameterPiece (innerOf template), .text (afterOf template)] := by
    conv_lhs => rw [h.eq]
    exact compilePath_one (no_brace_literal _) (no_brace_inner _) h.after
  rw [hCompiled, parameterPiece]
  simp only [Takes, nameOf]
  by_cases hRest : isRest (innerOf template) = true
  · rw [if_pos hRest, if_pos hRest, bind_rest_iff]
    simp only [hRest, true_or, true_and]
  · rw [if_neg hRest, if_neg hRest, bind_segment_iff]
    simp only [hRest, Bool.false_eq_true, false_or, and_assoc]

/-- A path that is bound starts and ends as the template does, and has as many slashes if no parameter takes a rest. -/
structure Shaped (template decoded : Text) : Prop where
  start : literal template <+: decoded
  last : (if hasParam template then afterOf template else template) <:+ decoded
  whole : hasParam template = false → decoded = template
  slashes : (hasParam template && isRest (innerOf template)) = false → decoded.count '/' = template.count '/'

theorem shaped_of_bind (hOne : hasParam template = true → OneParam template)
    (h : bind (compilePath template) decoded = some params) : Shaped template decoded := by
  cases hParam : hasParam template with
  | false =>
    obtain ⟨rfl, -⟩ := (bind_plain_iff hParam).mp h
    refine ⟨List.takeWhile_prefix _, ?_, fun _ => rfl, fun _ => rfl⟩
    rw [hParam]
    exact List.suffix_refl _
  | true =>
    have hT := hOne hParam
    obtain ⟨value, rfl, hFits, -⟩ := (bind_one_iff hT).mp h
    refine ⟨List.prefix_append _ _, ?_, fun hNone => ?_, fun hSegment => ?_⟩
    · rw [hParam, if_pos rfl]
      exact (List.suffix_append value _).trans (List.suffix_append _ _)
    · cases hParam.symm.trans hNone
    · rw [hParam, Bool.true_and] at hSegment
      obtain hRest | ⟨-, hSlash⟩ := hFits
      · cases hRest.symm.trans hSegment
      · conv_rhs => rw [hT.eq]
        simp only [List.count_append, List.count_cons, List.count_eq_zero.mpr hSlash, List.count_eq_zero.mpr hT.inner]
        simp

theorem not_apart {a b : Text} (hParam : hasParam a = true) (ha : Shaped a decoded) (hb : Shaped b decoded) :
    apart a b = false := by
  have hLastA : afterOf a <:+ decoded := by
    have hLast := ha.last
    rwa [hParam, if_pos rfl] at hLast
  rw [apart, Bool.or_eq_false_iff]
  constructor
  · split
    · rename_i hParamB
      have hLastB : afterOf b <:+ decoded := by
        have hLast := hb.last
        rwa [hParamB, if_pos rfl] at hLast
      rw [comparable_of_prefixes ha.start hb.start,
        comparable_of_prefixes (List.reverse_prefix.mpr hLastA) (List.reverse_prefix.mpr hLastB)]
      rfl
    · rename_i hParamB
      have hWhole := hb.whole (by simpa using hParamB)
      rw [← hWhole, List.isPrefixOf_iff_prefix.mpr ha.start, List.isSuffixOf_iff_suffix.mpr hLastA]
      rfl
  · rw [Bool.and_eq_false_iff, Bool.and_eq_false_iff]
    by_cases hRestA : isRest (innerOf a) = true
    · exact .inl (.inl (by rw [hRestA]; rfl))
    · by_cases hRestB : (hasParam b && isRest (innerOf b)) = true
      · exact .inl (.inr (by rw [hRestB]; rfl))
      · right
        have hCountA := ha.slashes (by rw [hParam, Bool.true_and]; simpa using hRestA)
        have hCountB := hb.slashes (by simpa using hRestB)
        rw [← hCountA, hCountB]
        simp

/-- Two routes that match a path are of one path, or are an archive and a file of a run. -/
theorem same_path {a b : Route} (ha : a ∈ allRoutes) (hb : b ∈ allRoutes) (hMethod : a.method = b.method)
    {boundA boundB : List (Name × Text)} (hBindA : bind (compilePath a.path.toList) decoded = some boundA)
    (hBindB : bind (compilePath b.path.toList) decoded = some boundB) :
    a.path = b.path ∨ (isRunPath a.path = true ∧ isRunPath b.path = true) := by
  have hShapedA := shaped_of_bind (checked_of_mem ha).one hBindA
  have hShapedB := shaped_of_bind (checked_of_mem hb).one hBindB
  by_contra hNot
  obtain ⟨hNe, hRun⟩ := not_or.mp hNot
  cases hParamA : hasParam a.path.toList with
  | true =>
    cases (not_apart hParamA hShapedA hShapedB).symm.trans (alone_of_mem ha hb hParamA hMethod hNe hRun)
  | false =>
    cases hParamB : hasParam b.path.toList with
    | true =>
      have hRun' : ¬(isRunPath b.path = true ∧ isRunPath a.path = true) := fun h => hRun h.symm
      cases (not_apart hParamB hShapedB hShapedA).symm.trans
        (alone_of_mem hb ha hParamB hMethod.symm (Ne.symm hNe) hRun')
    | false => exact hNe (String.toList_inj.mp ((hShapedA.whole hParamA).symm.trans (hShapedB.whole hParamB)))

/-! ## What the application dispatches -/

/-- A path of the archive of one run. -/
def ArchiveOf (decoded : Text) : Prop :=
  ∃ runId, decoded = "/runs/".toList ++ (runId ++ "/archive.zip".toList) ∧ runId ≠ [] ∧ '/' ∉ runId

/-- A route that the application has and that binds the path; a file of a run is none that is an archive. -/
structure Serves (site : Site) (method : String) (decoded : Text) (route : Route) (params : List (Name × Text)) : Prop where
  mem : route ∈ fastapiRoutes site
  method : route.method = method
  binds : bind (compilePath route.path.toList) decoded = some params
  first : route.path = runFilePath → ¬ArchiveOf decoded

def archiveRoute : Route := { method := "GET", path := archivePath }

/-- The routes up to that of an archive. -/
def earlyRoutes : List Route :=
  [{ method := "GET", path := "/" }, { method := "GET", path := "/index.html" }, { method := "GET", path := modulePath },
    archiveRoute]

theorem early_prefix (site : Site) : ∃ later, fastapiRoutes site = earlyRoutes ++ later := ⟨_, rfl⟩

theorem bind_archive_iff : (∃ params, bind (compilePath archivePath.toList) decoded = some params) ↔ ArchiveOf decoded := by
  have hOne : OneParam archivePath.toList := by decide
  have hLiteral : literal archivePath.toList = "/runs/".toList := by decide
  have hAfter : afterOf archivePath.toList = "/archive.zip".toList := by decide
  have hSegment : isRest (innerOf archivePath.toList) = false := by decide
  simp only [bind_one_iff hOne, Takes, hSegment, Bool.false_eq_true, false_or, hLiteral, hAfter, ArchiveOf]
  constructor
  · rintro ⟨params, value, hDecoded, hFits, -⟩
    exact ⟨value, hDecoded, hFits⟩
  · rintro ⟨value, hDecoded, hFits⟩
    exact ⟨_, value, hDecoded, hFits, rfl⟩

/-- What is found for the path of an archive is found before the files. -/
theorem early_of_archive (hArchive : ArchiveOf decoded) (h : appRoute site "GET" decoded = some (route, params)) :
    route ∈ earlyRoutes := by
  obtain ⟨bound, hBind⟩ := bind_archive_iff.mpr hArchive
  obtain ⟨later, hLater⟩ := early_prefix site
  rw [appRoute, hLater, List.findSome?_append] at h
  have hFound : (earlyRoutes.findSome? fun route =>
      if route.method = "GET" then (bind (compilePath route.path.toList) decoded).map (route, ·) else none).isSome := by
    rw [List.findSome?_isSome_iff]
    refine ⟨archiveRoute, by decide, ?_⟩
    rw [archiveRoute, if_pos rfl, hBind]
    rfl
  obtain ⟨early, hEarly⟩ := Option.isSome_iff_exists.mp hFound
  rw [hEarly, Option.some_or] at h
  obtain ⟨x, hMem, hx⟩ := List.exists_of_findSome?_eq_some hEarly
  split at hx
  · obtain ⟨bound, -, rfl⟩ := Option.map_eq_some_iff.mp hx
    cases h
    exact hMem
  · cases hx

theorem early_not_file (h : route ∈ earlyRoutes) : route.path ≠ runFilePath := by
  have hAll : earlyRoutes.all (fun route => route.path ≠ runFilePath) = true := by decide
  simpa using List.all_eq_true.mp hAll route h

theorem appRoute_serves (h : appRoute site method decoded = some (route, params)) :
    Serves site method decoded route params := by
  have hRoute := h
  rw [appRoute] at hRoute
  obtain ⟨found, hMem, hFound⟩ := List.exists_of_findSome?_eq_some hRoute
  split at hFound
  · rename_i hMethod
    obtain ⟨bound, hBind, hSame⟩ := Option.map_eq_some_iff.mp hFound
    obtain ⟨rfl, rfl⟩ := Prod.mk.inj hSame
    refine ⟨hMem, hMethod, hBind, fun hFile hArchive => ?_⟩
    have hGet := (checked_of_mem (fastapiRoutes_subset site hMem)).get (by rw [hFile]; decide)
    rw [← hMethod, hGet] at h
    exact early_not_file (early_of_archive hArchive h) hFile
  · cases hFound

theorem appRoute_of_serves (h : Serves site method decoded route params) :
    ∃ found, appRoute site method decoded = some (found, params) ∧ found.id = route.id := by
  have hFound : (appRoute site method decoded).isSome := by
    rw [appRoute, List.findSome?_isSome_iff]
    refine ⟨route, h.mem, ?_⟩
    rw [if_pos h.method, h.binds]
    rfl
  obtain ⟨⟨found, bound⟩, hSome⟩ := Option.isSome_iff_exists.mp hFound
  have hServes := appRoute_serves hSome
  have hPath : found.path = route.path := by
    have hMethods : found.method = route.method := hServes.method.trans h.method.symm
    obtain hSame | ⟨hRunFound, hRunRoute⟩ :=
      same_path (fastapiRoutes_subset site hServes.mem) (fastapiRoutes_subset site h.mem) hMethods hServes.binds h.binds
    · exact hSame
    · have hArchive {r : Route} {bound : List (Name × Text)} (hr : r.path = archivePath)
          (hBind : bind (compilePath r.path.toList) decoded = some bound) : ArchiveOf decoded :=
        bind_archive_iff.mp ⟨bound, hr ▸ hBind⟩
      simp only [isRunPath, Bool.or_eq_true, decide_eq_true_eq] at hRunFound hRunRoute
      obtain hFound | hFound := hRunFound
      · obtain hRoute | hRoute := hRunRoute
        · exact hFound.trans hRoute.symm
        · exact (h.first hRoute (hArchive hFound hServes.binds)).elim
      · obtain hRoute | hRoute := hRunRoute
        · exact (hServes.first hFound (hArchive hRoute h.binds)).elim
        · exact hFound.trans hRoute.symm
  have hBound : bound = params := by
    have hBinds := hServes.binds
    rw [hPath] at hBinds
    exact Option.some.inj (hBinds.symm.trans h.binds)
  refine ⟨found, by rw [hSome, hBound], ?_⟩
  rw [Route.id, Route.id, hPath, hServes.method, h.method]

theorem appOperation_iff {id : String × String} : appOperation site method decoded = some ⟨id, params⟩ ↔
    ∃ route, Serves site method decoded route params ∧ answers route params = true ∧ route.id = id := by
  rw [appOperation, Option.map_eq_some_iff]
  constructor
  · rintro ⟨⟨route, bound⟩, hFound, hSame⟩
    obtain ⟨hRoute, hAnswers⟩ := Option.filter_eq_some_iff.mp hFound
    cases hSame
    exact ⟨route, appRoute_serves hRoute, hAnswers, rfl⟩
  · rintro ⟨route, hServes, hAnswers, rfl⟩
    obtain ⟨found, hFound, hId⟩ := appRoute_of_serves hServes
    have hPath : found.path = route.path := congrArg Prod.snd hId
    have hSame : answers found params = answers route params := by rw [answers, answers, hPath]
    exact ⟨(found, params), Option.filter_eq_some_iff.mpr ⟨hFound, hSame.trans hAnswers⟩,
      congrArg (Operation.mk · params) hId⟩

end Bajutsu.Serve.Dispatch
