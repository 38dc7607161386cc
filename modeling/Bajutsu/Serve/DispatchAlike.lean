import Bajutsu.Serve.DispatchTable

/-!
# Where both backends route alike

What the handler takes a path for is read off the raw path, and the application binds the decoded one. They agree
where nothing is cut off the raw path and each value is decoded to one segment that is not empty.
-/

namespace Bajutsu.Serve.Dispatch

open FileSystem Gate PathPattern PercentDecoding UrlSplit

variable {site : Site} {method : String} {route : Route} {raw decoded template : Text} {params : List (Name × Text)}

/-! ## What the handler binds -/

theorem mem_of_mem_segments {name : Name} {text : Text} {c : Char} (hName : name ∈ segments text) (hMem : c ∈ name) :
    c ∈ text := by
  have hJoined : ∀ names : List Name, name ∈ names → c ∈ joined names := by
    intro names hNames
    obtain ⟨before, after, rfl⟩ := List.append_of_mem hNames
    obtain ⟨back, hBack⟩ := joined_cons_prefix name after
    have hLast : c ∈ joined (name :: after) := by
      rw [hBack]
      exact List.mem_append_left _ hMem
    rcases eq_or_ne before [] with rfl | hNe
    · exact hLast
    · rw [joined_append hNe (List.cons_ne_nil _ _)]
      exact List.mem_append_right _ (List.mem_cons_of_mem _ hLast)
  rw [← joined_segments text]
  exact hJoined _ hName

theorem parameter_none {segment : Name} (h : '{' ∉ segment) : parameter segment = none := by
  rw [parameter, if_neg]
  cases segment with
  | nil => rintro ⟨⟩
  | cons c segment =>
    rw [List.mem_cons, not_or] at h
    simp [Ne.symm h.1]

theorem matchSegments_plain {template path : List Name} (hPlain : ∀ segment ∈ template, parameter segment = none)
    (h : matchSegments template path = some params) : path = template ∧ params = [] := by
  induction template generalizing path with
  | nil =>
    cases path with
    | nil => exact ⟨rfl, (Option.some.inj h).symm⟩
    | cons value path => cases h
  | cons segment template ih =>
    rw [matchSegments.eq_def] at h
    dsimp only at h
    rw [hPlain segment List.mem_cons_self] at h
    cases path with
    | nil => cases h
    | cons value path =>
      dsimp only at h
      split at h
      · rename_i hSame
        obtain ⟨rfl, hParams⟩ := ih (fun other hMem => hPlain other (List.mem_cons_of_mem _ hMem)) h
        exact ⟨by rw [hSame], hParams⟩
      · cases h

theorem matchSegments_one {before after path : List Name} {segment name : Name} (hParam : parameter segment = some name)
    (hGreedy : isGreedy name = false) (hBefore : ∀ other ∈ before, parameter other = none)
    (hAfter : ∀ other ∈ after, parameter other = none)
    (h : matchSegments (before ++ segment :: after) path = some params) :
    ∃ value, path = before ++ value :: after ∧ params = [(name, value)] := by
  induction before generalizing path with
  | nil =>
    rw [List.nil_append, matchSegments.eq_def] at h
    dsimp only at h
    rw [hParam] at h
    dsimp only at h
    rw [hGreedy] at h
    cases path with
    | nil => cases h
    | cons value path =>
      obtain ⟨bound, hRest, rfl⟩ := Option.map_eq_some_iff.mp h
      obtain ⟨rfl, rfl⟩ := matchSegments_plain hAfter hRest
      exact ⟨value, rfl, rfl⟩
  | cons other before ih =>
    rw [List.cons_append, matchSegments.eq_def] at h
    dsimp only at h
    rw [hBefore other List.mem_cons_self] at h
    cases path with
    | nil => cases h
    | cons value path =>
      dsimp only at h
      split at h
      · rename_i hSame
        obtain ⟨bound, rfl, hParams⟩ := ih (fun x hMem => hBefore x (List.mem_cons_of_mem _ hMem)) h
        exact ⟨bound, by rw [hSame]; rfl, hParams⟩
      · cases h

/-- A template whose parameter is a whole segment binds what stands between its other segments. -/
theorem matchSegments_template {path : Text} (hOne : OneParam template) (hDivided : divided template = true)
    (hBounded : Bounded (segments template)) (h : matchSegments (segments template) (segments path) = some params) :
    isRest (innerOf template) = false ∧
      ∃ value, path = literal template ++ (value ++ afterOf template) ∧ params = [(nameOf template, value)] := by
  obtain ⟨hLast, hAfter⟩ := Bool.and_eq_true_iff.mp hDivided
  obtain ⟨front, hFront⟩ : ∃ front, literal template = front ++ ['/'] := by
    have hSome := of_decide_eq_true hLast
    obtain ⟨hNe, hSlash⟩ := List.getLast?_eq_some_iff.mp hSome
    exact ⟨_, hSlash⟩
  obtain ⟨segment, hSegmentEq⟩ : ∃ segment : Name, segment = '{' :: (innerOf template ++ ['}']) := ⟨_, rfl⟩
  have hParameter : parameter segment = some (innerOf template) := by
    rw [parameter, if_pos, hSegmentEq, List.tail_cons, List.dropLast_concat]
    rw [hSegmentEq, ← List.cons_append, List.getLast?_concat]
    rfl
  have hFree : '/' ∉ segment := by
    rw [hSegmentEq]
    simp [hOne.inner]
  have hBraceFree {text : Text} (hText : '{' ∉ text) (other : Name) (hMem : other ∈ segments text) :
      parameter other = none :=
    parameter_none fun hBrace => hText (mem_of_mem_segments hMem hBrace)
  have hFrontFree : '{' ∉ front := by
    intro hBrace
    refine no_brace_literal template ?_
    rw [hFront]
    exact List.mem_append_left _ hBrace
  have hText : template = front ++ '/' :: (segment ++ afterOf template) := by
    conv_lhs => rw [hOne.eq, hFront]
    simp [hSegmentEq]
  have hMem : segment ∈ segments template := by
    rw [hText, segments_slash]
    obtain hNil | hSlash := Bool.or_eq_true_iff.mp hAfter
    · have hEmpty : afterOf template = [] := of_decide_eq_true hNil
      rw [hEmpty, List.append_nil, segments_of_no_slash hFree]
      exact List.mem_append_right _ List.mem_cons_self
    · obtain ⟨back, hBack⟩ : ∃ back, afterOf template = '/' :: back :=
        List.head?_eq_some_iff.mp (of_decide_eq_true hSlash)
      rw [hBack, segments_slash, segments_of_no_slash hFree]
      exact List.mem_append_right _ List.mem_cons_self
  have hSegment : isRest (innerOf template) = false := hBounded segment hMem _ hParameter
  have hName : nameOf template = innerOf template := by
    rw [nameOf, hSegment]
    rfl
  refine ⟨hSegment, ?_⟩
  conv at h => arg 1; rw [hText, segments_slash]
  rw [hName, hFront]
  simp only [List.append_assoc, List.singleton_append]
  obtain hNil | hSlash := Bool.or_eq_true_iff.mp hAfter
  · have hEmpty : afterOf template = [] := of_decide_eq_true hNil
    rw [hEmpty, List.append_nil, segments_of_no_slash hFree] at h
    obtain ⟨value, hPath, hParams⟩ := matchSegments_one hParameter hSegment (hBraceFree hFrontFree) (by rintro _ ⟨⟩) h
    refine ⟨value, ?_, hParams⟩
    rw [← joined_segments path, hPath, joined_append (segments_ne_nil front) (List.cons_ne_nil _ _), joined_segments,
      joined_singleton, hEmpty, List.append_nil]
  · obtain ⟨back, hBack⟩ : ∃ back, afterOf template = '/' :: back := List.head?_eq_some_iff.mp (of_decide_eq_true hSlash)
    have hBackFree : '{' ∉ back := fun hBrace => hOne.after (hBack ▸ List.mem_cons_of_mem _ hBrace)
    rw [hBack, segments_slash, segments_of_no_slash hFree, List.singleton_append] at h
    obtain ⟨value, hPath, hParams⟩ :=
      matchSegments_one hParameter hSegment (hBraceFree hFrontFree) (hBraceFree hBackFree) h
    refine ⟨value, ?_, hParams⟩
    rw [← joined_segments path, hPath, joined_append (segments_ne_nil front) (List.cons_ne_nil _ _), joined_segments,
      joined_cons (segments_ne_nil back), joined_segments, hBack]

/-- What `path[len(start):-len(last)]` is of a path that starts and ends so. -/
theorem sliced_cases {path start last : Text} (hStart : start <+: path) (hLast : last <:+ path) :
    (∃ value, path = start ++ (value ++ last) ∧ sliced path start last = value) ∨ sliced path start last = [] := by
  obtain ⟨rest, rfl⟩ := hStart
  rcases Nat.lt_or_ge rest.length last.length with hShort | hLong
  · right
    rw [sliced, List.length_append]
    apply List.drop_eq_nil_of_le
    rw [List.length_take]
    omega
  · left
    obtain ⟨value, rfl⟩ := List.suffix_of_suffix_length_le hLast (List.suffix_append start rest) hLong
    refine ⟨value, rfl, ?_⟩
    rw [sliced]
    simp only [List.length_append]
    have hTake : start.length + (value.length + last.length) - last.length = (start ++ value).length := by
      rw [List.length_append]
      omega
    rw [hTake, ← List.append_assoc, List.take_left, List.drop_left]

/-- What the handler binds of a path that it takes for the route. -/
inductive Reads (route : Route) (path : Text) : List (Name × Text) → Prop where
  | fixed (hParam : hasParam route.path.toList = false) (hPath : path = route.path.toList) : Reads route path []
  | bound (value : Text) (hParam : hasParam route.path.toList = true)
      (hDivided : route.path ≠ modulePath) (hEvents : route.path ≠ eventsPath) (hFile : route.path ≠ runFilePath)
      (hSegment : isRest (innerOf route.path.toList) = false)
      (hPath : path = literal route.path.toList ++ (value ++ afterOf route.path.toList)) :
      Reads route path [(nameOf route.path.toList, unquote value)]
  | file (value : Text) (hRoute : route.path = runFilePath) (hPath : path = "/runs/".toList ++ value) :
      Reads route path [("rel".toList, unquote value)]
  | module (name : Text) (hRoute : route.path = modulePath) (hPath : path = "/serve.".toList ++ (name ++ ".mjs".toList))
      (hNe : name ≠ []) (hSlash : '/' ∉ name) (hPlain : '%' ∉ path) : Reads route path [("name".toList, name)]
  | events (hRoute : route.path = eventsPath) (hStart : "/api/jobs/".toList <+: path) (hLast : "/events".toList <:+ path) :
      Reads route path [("job_id".toList, sliced path "/api/jobs/".toList "/events".toList)]

theorem handlerParams_fixed {path : String} (hParam : hasParam route.path.toList = false) (hPath : path = route.path) :
    handlerParams route path = some [] := by
  have hNe (special : String) (hSpecial : hasParam special.toList = true) : route.path ≠ special := by
    rintro rfl
    cases hParam.symm.trans hSpecial
  rw [handlerParams, if_neg (hNe _ (by decide)), if_neg (hNe _ (by decide)), if_neg (hNe _ (by decide)),
    if_neg (hNe _ (by decide)), matchTemplate]
  have hBrace : (route.path.toList.contains '{') = false := hParam
  rw [hBrace, if_pos (by decide), if_pos hPath.symm]
  rfl

theorem reads_fixed {path : String} (hParam : hasParam route.path.toList = false) (hPath : path = route.path)
    (hParams : handlerParams route path = some params) : Reads route path.toList params := by
  obtain rfl := Option.some.inj ((handlerParams_fixed hParam hPath).symm.trans hParams)
  exact .fixed hParam (by rw [hPath])

theorem uniform_plain : ROUTES.all (fun route => route.offLoop ||
    route.path ≠ eventsPath && route.path ≠ archivePath && route.path ≠ runFilePath && route.path ≠ modulePath) = true := by
  decide +kernel

theorem registry_reads {path : String} (h : dispatchRegistry method path = some route)
    (hParams : handlerParams route path = some params) : Reads route path.toList params := by
  obtain ⟨hFound, hUniform⟩ := Option.filter_eq_some_iff.mp h
  have hMem := List.mem_of_find?_eq_some hFound
  have hMatch : route.method = method ∧ (matchTemplate route.path path).isSome = true := by
    simpa using List.find?_some hFound
  have hLoop : route.offLoop = false := by simpa using hUniform
  have hPlain := List.all_eq_true.mp uniform_plain route hMem
  rw [hLoop, Bool.false_or] at hPlain
  simp only [Bool.and_eq_true, decide_eq_true_eq] at hPlain
  obtain ⟨⟨⟨hEvents, hArchive⟩, hFile⟩, hModule⟩ := hPlain
  have hChecked : Checked route :=
    checked_of_mem (List.mem_append_right _ (List.mem_filter.mpr ⟨hMem, by rw [hLoop]; rfl⟩))
  cases hParam : hasParam route.path.toList with
  | false =>
    refine reads_fixed hParam ?_ hParams
    have hSome := hMatch.2
    have hBrace : (route.path.toList.contains '{') = false := hParam
    rw [matchTemplate, hBrace, if_pos (by decide)] at hSome
    split at hSome
    · rename_i hSame
      exact hSame.symm
    · cases hSome
  | true =>
    have hOne := hChecked.one hParam
    have hDivided := hChecked.divided hParam hModule
    rw [handlerParams, if_neg hEvents, if_neg hArchive, if_neg hFile, if_neg hModule, matchTemplate] at hParams
    have hBrace : (route.path.toList.contains '{') = true := hParam
    rw [hBrace, if_neg (by decide)] at hParams
    obtain ⟨bound, hBound, rfl⟩ := Option.map_eq_some_iff.mp hParams
    obtain ⟨hSegment, value, hPath, rfl⟩ :=
      matchSegments_template hOne hDivided (bounded_of_uniform hMem hLoop) hBound
    exact .bound value hParam hModule hEvents hFile hSegment hPath

theorem modulePaths_named : modulePaths.all (fun path =>
    let name := sliced path.toList "/serve.".toList ".mjs".toList
    path.toList = "/serve.".toList ++ (name ++ ".mjs".toList) && name ≠ [] && !name.contains '/' &&
      !path.toList.contains '%') = true := by
  decide +kernel

theorem streaming_reads {path : String} (h : serveStreamingGet path = some route)
    (hParams : handlerParams route path = some params) (hAnswers : answers route params = true) :
    Reads route path.toList params := by
  rw [serveStreamingGet] at h
  split at h
  · rename_i hEvents
    obtain ⟨hStart, hLast⟩ := Bool.and_eq_true_iff.mp hEvents
    cases h
    cases hParams
    exact .events rfl (List.isPrefixOf_iff_prefix.mp hStart) (List.isSuffixOf_iff_suffix.mp hLast)
  split at h
  · rename_i hArchive
    obtain ⟨hStart, hLast⟩ := Bool.and_eq_true_iff.mp hArchive
    cases h
    cases hParams
    obtain ⟨value, hPath, hSliced⟩ | hNil :=
      sliced_cases (List.isPrefixOf_iff_prefix.mp hStart) (List.isSuffixOf_iff_suffix.mp hLast)
    · rw [hSliced]
      exact .bound value (by decide) (by decide) (by decide) (by decide) (by decide) hPath
    · rw [hNil] at hAnswers
      cases hAnswers
  split at h
  · rename_i hCapture
    cases h
    exact reads_fixed (by decide) hCapture hParams
  split at h
  · rename_i hRun
    cases h
    cases hParams
    obtain ⟨value, hPath⟩ := List.isPrefixOf_iff_prefix.mp hRun
    refine .file _ rfl ?_
    rw [← hPath]
    have hRest : ("/runs/".toList ++ value).drop "/runs/".length = value := List.drop_left
    rw [hRest]
  · cases h

theorem get_reads {path : String} (h : dispatchGet path = some route) (hParams : handlerParams route path = some params) :
    Reads route path.toList params := by
  rw [dispatchGet] at h
  split at h
  · rename_i hIndex
    cases h
    have hParam : hasParam path.toList = false := by
      simp only [Bool.or_eq_true, decide_eq_true_eq] at hIndex
      obtain rfl | rfl := hIndex <;> decide
    exact reads_fixed hParam rfl hParams
  split at h
  · rename_i hModule
    cases h
    cases hParams
    have hNamed := List.all_eq_true.mp modulePaths_named path (by simpa using hModule)
    simp only [Bool.and_eq_true, decide_eq_true_eq, Bool.not_eq_true'] at hNamed
    obtain ⟨⟨⟨hPath, hNe⟩, hSlash⟩, hPlain⟩ := hNamed
    exact .module _ rfl hPath hNe (by simpa using hSlash) (by simpa using hPlain)
  split at h
  · rename_i hOauth
    cases h
    have hParam : hasParam path.toList = false := by
      simp only [Bool.or_eq_true, decide_eq_true_eq] at hOauth
      obtain rfl | rfl := hOauth <;> decide
    exact reads_fixed hParam rfl hParams
  · exact registry_reads h hParams

theorem post_reads {path : String} (h : (rawUpload path).or (dispatchPost path) = some route)
    (hParams : handlerParams route path = some params) : Reads route path.toList params := by
  obtain hUpload | ⟨-, hPost⟩ := Option.or_eq_some_iff.mp h
  · rw [rawUpload] at hUpload
    split at hUpload
    · rename_i hMem
      cases hUpload
      have hAll : uploadPaths.all (fun upload => !hasParam upload.toList) = true := by decide
      have hParam := List.all_eq_true.mp hAll path (by simpa using hMem)
      exact reads_fixed (by simpa using hParam) rfl hParams
    · cases hUpload
  · rw [dispatchPost] at hPost
    split at hPost
    · rename_i hExact
      cases hPost
      have hParam : hasParam path.toList = false := by
        simp only [Bool.or_eq_true, decide_eq_true_eq] at hExact
        obtain rfl | rfl := hExact <;> decide
      exact reads_fixed hParam rfl hParams
    · exact registry_reads hPost hParams

theorem claimed_reads {path : String} (h : claimed method path = some route)
    (hParams : handlerParams route path = some params) (hAnswers : answers route params = true) :
    Reads route path.toList params ∧ route ∈ allRoutes ∧ route.method = method := by
  rw [claimed] at h
  split at h
  · rename_i hGet
    have hFits := doGet_fits (congrArg Handled.route h)
    refine ⟨?_, hFits.mem, by rw [hFits.method, hGet]⟩
    obtain hStream | ⟨-, hRest⟩ := Option.or_eq_some_iff.mp h
    · exact streaming_reads hStream hParams hAnswers
    · exact get_reads hRest hParams
  split at h
  · rename_i hPost
    have hFits : Gate.Fits "POST" path route := by
      obtain hUpload | ⟨-, hRest⟩ := Option.or_eq_some_iff.mp h
      · exact rawUpload_fits hUpload
      · exact dispatchPost_fits hRest
    exact ⟨post_reads h hParams, hFits.mem, by rw [hFits.method, hPost]⟩
  split at h
  · have hFits := dispatchRegistry_fits h
    exact ⟨registry_reads h hParams, hFits.mem, hFits.method⟩
  · cases h

/-! ## The path that the handler reads -/

/-- The raw path with its slashes reduced and its parameters cut off. -/
def handlerPath (raw : Text) : Text := splitParams (requestTarget raw)

theorem isPath_requestTarget (hRaw : RawPath raw) : IsPath (requestTarget raw) := by
  rw [requestTarget]
  split
  · refine ⟨rfl, fun rest hSame => ?_, fun c hMem => ?_⟩
    · have hRest := (List.cons.inj hSame).2
      have hHead := List.head?_dropWhile_not (· = '/') raw
      rw [hRest] at hHead
      simp at hHead
    · obtain rfl | hMem := List.mem_cons.mp hMem
      · exact ⟨by decide, by decide, by decide⟩
      · exact hRaw.plain c ((List.dropWhile_suffix _).subset hMem)
  · rename_i hSlashes
    refine ⟨hRaw.root, ?_, hRaw.plain⟩
    rintro rest rfl
    exact hSlashes rfl

theorem urlparsePath_raw (hRaw : RawPath raw) (validNetloc : Text → Bool) :
    urlparsePath validNetloc (requestTarget raw) = some (handlerPath raw) :=
  (isPath_requestTarget hRaw).urlparsePath

/-- Where the handler's path is not the raw one, the decoded path starts with two slashes, or goes on after what is
decoded of the handler's. -/
theorem cut_cases (raw : Text) : raw = handlerPath raw ∨ (∃ rest, unquote raw = '/' :: '/' :: rest) ∨
    ∃ rest, unquote raw = unquote (handlerPath raw) ++ ';' :: rest := by
  by_cases hSlashes : "//".toList.isPrefixOf raw = true
  · obtain ⟨rest, rfl⟩ := List.isPrefixOf_iff_prefix.mp hSlashes
    refine .inr (.inl ⟨unquote rest, ?_⟩)
    change unquote ('/' :: '/' :: rest) = _
    rw [unquote_cons divides_slash, unquote_cons divides_slash]
  · rw [handlerPath, requestTarget, if_neg hSlashes, splitParams]
    have hWhole : raw.rdropWhile (· ≠ '/') ++ raw.rtakeWhile (· ≠ '/') = raw := List.rdropWhile_append_rtakeWhile
    generalize raw.rtakeWhile (· ≠ '/') = last at hWhole
    have hLast : last.takeWhile (· ≠ ';') ++ last.dropWhile (· ≠ ';') = last := List.takeWhile_append_dropWhile
    cases hCut : last.dropWhile (· ≠ ';') with
    | nil =>
      rw [hCut, List.append_nil] at hLast
      exact .inl (by rw [hLast, hWhole])
    | cons c rest =>
      obtain rfl : c = ';' := by
        have hHead := List.head?_dropWhile_not (· ≠ ';') last
        rw [hCut] at hHead
        simpa using hHead
      refine .inr (.inr ⟨unquote rest, ?_⟩)
      rw [← unquote_append divides_semicolon, List.append_assoc, ← hCut, hLast, hWhole]

theorem unquote_between {start value last : Text} (hStart : start.getLast? = some '/')
    (hLast : last = [] ∨ last.head? = some '/') (hPlainStart : '%' ∉ start) (hPlainLast : '%' ∉ last) :
    unquote (start ++ (value ++ last)) = start ++ (unquote value ++ last) := by
  obtain ⟨front, rfl⟩ := List.getLast?_eq_some_iff.mp hStart
  have hFront : '%' ∉ front := fun hMem => hPlainStart (List.mem_append_left _ hMem)
  have hEnd : unquote (value ++ last) = unquote value ++ last := by
    obtain rfl | hSlash := hLast
    · rw [List.append_nil, List.append_nil]
    · obtain ⟨back, rfl⟩ := List.head?_eq_some_iff.mp hSlash
      have hBack : '%' ∉ back := fun hMem => hPlainLast (List.mem_cons_of_mem _ hMem)
      rw [unquote_append divides_slash, unquote_plain hBack]
  simp only [List.append_assoc, List.singleton_append]
  rw [unquote_append divides_slash, unquote_plain hFront, hEnd]

/-! ## Where they agree -/

/-- What the handler takes the path for, and finds. -/
structure Taken (method : String) (path : Text) (route : Route) (params : List (Name × Text)) : Prop where
  claimed : claimed method (String.ofList path) = some route
  binds : handlerParams route (String.ofList path) = some params
  answers : answers route params = true

/-- The values are one segment each, and not empty. The path of a job's events is whole and its id has no escape, and
a file of a run is not at the path of an archive. -/
def Kept (route : Route) (path : Text) (params : List (Name × Text)) : Prop :=
  if route.path = eventsPath then
    ∀ p ∈ params, path = "/api/jobs/".toList ++ (p.2 ++ "/events".toList) ∧ p.2 ≠ [] ∧ '/' ∉ p.2 ∧ unquote p.2 = p.2
  else if route.path = runFilePath then ¬ArchiveOf (unquote path)
  else ∀ p ∈ params, p.2 ≠ [] ∧ '/' ∉ p.2

/-- Each route that binds the decoded path answers that it is not found, but for a file at the path of an archive. -/
def Unserved (site : Site) (method : String) (decoded : Text) : Prop :=
  ∀ route ∈ fastapiRoutes site, route.method = method → ∀ params,
    bind (compilePath route.path.toList) decoded = some params →
      answers route params = false ∨ (route.path = runFilePath ∧ ArchiveOf decoded)

/-- A path that the handler takes for a route is the raw path, for a route that the application has, and is kept. One
that it takes for none is not served. -/
structure Alike (site : Site) (method : String) (raw : Text) : Prop where
  taken : ∀ route params, Taken method (handlerPath raw) route params →
    route.id ∈ (fastapiRoutes site).map Route.id ∧ raw = handlerPath raw ∧ Kept route (handlerPath raw) params
  left : (∀ route params, ¬Taken method (handlerPath raw) route params) → Unserved site method (unquote raw)

theorem decoded_iff (hSingle : ∀ rest, unquote (handlerPath raw) ≠ '/' :: '/' :: rest) :
    unquote raw = unquote (handlerPath raw) ↔ raw = handlerPath raw := by
  refine ⟨fun hSame => ?_, fun hSame => by rw [← hSame]⟩
  obtain hWhole | ⟨rest, hSlashes⟩ | ⟨rest, hCut⟩ := cut_cases raw
  · exact hWhole
  · exact (hSingle rest (hSame.symm.trans hSlashes)).elim
  · have hLength := congrArg List.length (hSame.symm.trans hCut)
    rw [List.length_append, List.length_cons] at hLength
    omega

theorem rooted_single {rest : Text} (h : rooted template = true) : template ≠ '/' :: '/' :: rest := by
  rintro rfl
  rw [rooted] at h
  simp at h

/-- What starts as a template of the table does does not start with two slashes. -/
theorem literal_single (hChecked : Checked route) (hParam : hasParam route.path.toList = true) (back rest : Text) :
    literal route.path.toList ++ back ≠ '/' :: '/' :: rest := by
  intro hSame
  have hRooted := hChecked.rooted
  have hEq := (hChecked.one hParam).eq
  generalize literal route.path.toList = start at hSame hEq
  rw [hEq] at hRooted
  match start with
  | [] => simp [rooted] at hRooted
  | [c] =>
    obtain ⟨rfl, -⟩ := List.cons.inj hSame
    simp [rooted] at hRooted
  | c :: d :: start =>
    obtain ⟨rfl, hRest⟩ := List.cons.inj hSame
    obtain ⟨rfl, -⟩ := List.cons.inj hRest
    simp [rooted] at hRooted

theorem appOperation_route_iff (hAnswers : answers route params = true) (hMethod : route.method = method) :
    appOperation site method decoded = some ⟨route.id, params⟩ ↔ route.id ∈ (fastapiRoutes site).map Route.id ∧
      bind (compilePath route.path.toList) decoded = some params ∧ (route.path = runFilePath → ¬ArchiveOf decoded) := by
  rw [appOperation_iff]
  constructor
  · rintro ⟨found, hServes, -, hId⟩
    have hPath : found.path = route.path := congrArg Prod.snd hId
    exact ⟨List.mem_map.mpr ⟨found, hServes.mem, hId⟩, hPath ▸ hServes.binds, hPath ▸ hServes.first⟩
  · rintro ⟨hServed, hBind, hFirst⟩
    obtain ⟨found, hMem, hId⟩ := List.mem_map.mp hServed
    have hPath : found.path = route.path := congrArg Prod.snd hId
    have hFound : found.method = method := (congrArg Prod.fst hId).trans hMethod
    refine ⟨found, ⟨hMem, hFound, hPath ▸ hBind, hPath ▸ hFirst⟩, ?_, hId⟩
    rw [answers, hPath]
    exact hAnswers

theorem kept_iff (hEvents : route.path ≠ eventsPath) (hFile : route.path ≠ runFilePath) (path : Text) :
    Kept route path params ↔ ∀ p ∈ params, p.2 ≠ [] ∧ '/' ∉ p.2 := by
  rw [Kept, if_neg hEvents, if_neg hFile]

theorem ne_of_hasParam (hParam : hasParam route.path.toList = false) (path : String) (hPath : hasParam path.toList = true) :
    route.path ≠ path := by
  rintro rfl
  cases hParam.symm.trans hPath

/-- Of a job's events, where the raw path is cut, something follows their path that no parameter takes. -/
theorem events_iff (hStart : "/api/jobs/".toList <+: handlerPath raw) (hLast : "/events".toList <:+ handlerPath raw) :
    let jobId := sliced (handlerPath raw) "/api/jobs/".toList "/events".toList
    (unquote raw = "/api/jobs/".toList ++ (jobId ++ "/events".toList) ∧ jobId ≠ [] ∧ '/' ∉ jobId) ↔
      raw = handlerPath raw ∧ handlerPath raw = "/api/jobs/".toList ++ (jobId ++ "/events".toList) ∧ jobId ≠ [] ∧
        '/' ∉ jobId ∧ unquote jobId = jobId := by
  intro jobId
  obtain ⟨value, hPath, hSliced⟩ | hNil := sliced_cases hStart hLast
  · obtain rfl : jobId = value := hSliced
    have hDecoded : unquote (handlerPath raw) = "/api/jobs/".toList ++ (unquote jobId ++ "/events".toList) := by
      conv_lhs => rw [hPath]
      exact unquote_between (by decide) (by decide) (by decide) (by decide)
    constructor
    · rintro ⟨hRaw, hNe, hSlash⟩
      obtain hWhole | ⟨rest, hSlashes⟩ | ⟨rest, hCut⟩ := cut_cases raw
      · have hSame := hRaw.symm.trans ((congrArg unquote hWhole).trans hDecoded)
        have hId := List.append_cancel_right (List.append_cancel_left hSame)
        exact ⟨hWhole, hPath, hNe, hSlash, hId.symm⟩
      · cases hRaw.symm.trans hSlashes
      · rw [hDecoded, List.append_assoc, List.append_assoc] at hCut
        have hSame := List.append_cancel_left (hRaw.symm.trans hCut)
        -- The one slash after the id is that of the events.
        have hCount := congrArg (List.count '/') hSame
        have hEvents : "/events".toList = '/' :: "events".toList := rfl
        have hNone : List.count '/' "events".toList = 0 := by decide
        simp only [List.count_append, hEvents, List.count_cons, hNone, List.count_eq_zero.mpr hSlash] at hCount
        have hFree : '/' ∉ unquote jobId := by
          rw [← List.count_eq_zero]
          simp at hCount
          omega
        have hBefore {text : Text} (h : '/' ∉ text) : ∀ c ∈ text, decide (c ≠ '/') = true :=
          fun c hMem => decide_eq_true fun hIs => h (hIs ▸ hMem)
        have hDrop := congrArg (fun text => (text.dropWhile (· ≠ '/')).length) hSame
        rw [List.dropWhile_append_of_pos (hBefore hSlash), List.dropWhile_append_of_pos (hBefore hFree)] at hDrop
        simp [hEvents] at hDrop
    · rintro ⟨hWhole, -, hNe, hSlash, hId⟩
      refine ⟨?_, hNe, hSlash⟩
      conv_lhs => rw [hWhole]
      rw [hDecoded, hId]
  · have hEmpty : jobId = [] := hNil
    exact ⟨fun h => (h.2.1 hEmpty).elim, fun h => (h.2.2.1 hEmpty).elim⟩

/-- Of what the handler reads, when the application dispatches the same. -/
theorem reads_iff (hChecked : Checked route) (hReads : Reads route (handlerPath raw) params) :
    (bind (compilePath route.path.toList) (unquote raw) = some params ∧
        (route.path = runFilePath → ¬ArchiveOf (unquote raw))) ↔
      raw = handlerPath raw ∧ Kept route (handlerPath raw) params := by
  cases hReads with
  | fixed hParam hPath =>
    have hPlain : unquote (handlerPath raw) = handlerPath raw := unquote_plain (hPath ▸ hChecked.plain)
    have hSingle (rest : Text) : unquote (handlerPath raw) ≠ '/' :: '/' :: rest := by
      rw [hPlain, hPath]
      exact rooted_single hChecked.rooted
    have hFile := ne_of_hasParam hParam runFilePath (by decide)
    have hEvents := ne_of_hasParam hParam eventsPath (by decide)
    rw [bind_plain_iff hParam, kept_iff hEvents hFile, ← decoded_iff hSingle, hPlain, ← hPath]
    simp [hFile]
  | bound value hParam hModule hEvents hFile hSegment hPath =>
    have hOne := hChecked.one hParam
    obtain ⟨hStart, hAfter⟩ := Bool.and_eq_true_iff.mp (hChecked.divided hParam hModule)
    have hPlain : '%' ∉ literal route.path.toList ∧ '%' ∉ afterOf route.path.toList := by
      have hAll := hChecked.plain
      rw [hOne.eq] at hAll
      simp only [List.mem_append, List.mem_cons, not_or] at hAll
      exact ⟨hAll.1, hAll.2.2.2.2⟩
    have hDecoded : unquote (handlerPath raw) =
        literal route.path.toList ++ (unquote value ++ afterOf route.path.toList) := by
      rw [hPath]
      refine unquote_between (of_decide_eq_true hStart) ?_ hPlain.1 hPlain.2
      exact (Bool.or_eq_true_iff.mp hAfter).imp of_decide_eq_true of_decide_eq_true
    have hSingle (rest : Text) : unquote (handlerPath raw) ≠ '/' :: '/' :: rest := by
      rw [hDecoded]
      exact literal_single hChecked hParam _ rest
    rw [bind_one_iff hOne, kept_iff hEvents hFile, ← decoded_iff hSingle, hDecoded]
    simp only [Takes, hSegment, Bool.false_eq_true, false_or, List.cons.injEq, Prod.mk.injEq, true_and, and_true,
      hFile, false_implies, List.mem_singleton, forall_eq]
    constructor
    · rintro ⟨found, hRaw, hTakes, rfl⟩
      exact ⟨hRaw, hTakes⟩
    · rintro ⟨hRaw, hTakes⟩
      exact ⟨_, hRaw, hTakes, rfl⟩
  | file value hRoute hPath =>
    have hOne : OneParam runFilePath.toList := by decide
    have hRest : isRest (innerOf runFilePath.toList) = true := by decide
    have hLiteral : literal runFilePath.toList = "/runs/".toList := by decide
    have hAfter : afterOf runFilePath.toList = [] := by decide
    have hName : nameOf runFilePath.toList = "rel".toList := by decide
    have hDecoded : unquote (handlerPath raw) = "/runs/".toList ++ unquote value := by
      have hBetween := @unquote_between "/runs/".toList value [] (by decide) (.inl rfl) (by decide) (by decide)
      rwa [List.append_nil, List.append_nil, ← hPath] at hBetween
    have hSingle (rest : Text) : unquote (handlerPath raw) ≠ '/' :: '/' :: rest := by
      rw [hDecoded]
      rintro ⟨⟩
    have hKept : Kept route (handlerPath raw) [("rel".toList, unquote value)] ↔ ¬ArchiveOf (unquote (handlerPath raw)) := by
      rw [Kept, hRoute, if_neg (by decide), if_pos rfl]
    rw [hKept, ← decoded_iff hSingle, hRoute, bind_one_iff hOne, hLiteral, hAfter, hName]
    simp only [Takes, hRest, true_or, true_and, List.append_nil, List.cons.injEq, Prod.mk.injEq, and_true, true_implies]
    constructor
    · rintro ⟨⟨found, hRaw, rfl⟩, hNot⟩
      have hSame := hRaw.trans hDecoded.symm
      exact ⟨hSame, hSame ▸ hNot⟩
    · rintro ⟨hSame, hNot⟩
      exact ⟨⟨_, hSame.trans hDecoded, rfl⟩, hSame ▸ hNot⟩
  | module name hRoute hPath hNe hSlash hPlain =>
    have hOne : OneParam modulePath.toList := by decide
    have hSegment : isRest (innerOf modulePath.toList) = false := by decide
    have hLiteral : literal modulePath.toList = "/serve.".toList := by decide
    have hAfter : afterOf modulePath.toList = ".mjs".toList := by decide
    have hName : nameOf modulePath.toList = "name".toList := by decide
    have hDecoded : unquote (handlerPath raw) = handlerPath raw := unquote_plain hPlain
    have hSingle (rest : Text) : unquote (handlerPath raw) ≠ '/' :: '/' :: rest := by
      rw [hDecoded, hPath]
      rintro ⟨⟩
    have hEvents : route.path ≠ eventsPath := by rw [hRoute]; decide
    have hFile : route.path ≠ runFilePath := by rw [hRoute]; decide
    rw [kept_iff hEvents hFile, ← decoded_iff hSingle, hDecoded, hRoute, bind_one_iff hOne, hLiteral, hAfter, hName]
    simp only [Takes, hSegment, Bool.false_eq_true, false_or, List.cons.injEq, Prod.mk.injEq, true_and, and_true,
      List.mem_singleton, forall_eq]
    constructor
    · rintro ⟨⟨found, hRaw, hTakes, rfl⟩, -⟩
      exact ⟨hRaw.trans hPath.symm, hTakes⟩
    · rintro ⟨hRaw, hTakes⟩
      exact ⟨⟨name, hRaw.trans hPath, hTakes, rfl⟩, fun hIs => absurd hIs (by decide)⟩
  | events hRoute hStart hLast =>
    have hOne : OneParam eventsPath.toList := by decide
    have hSegment : isRest (innerOf eventsPath.toList) = false := by decide
    have hLiteral : literal eventsPath.toList = "/api/jobs/".toList := by decide
    have hAfter : afterOf eventsPath.toList = "/events".toList := by decide
    have hName : nameOf eventsPath.toList = "job_id".toList := by decide
    rw [Kept, hRoute, if_pos rfl, bind_one_iff hOne, hLiteral, hAfter, hName]
    simp only [Takes, hSegment, Bool.false_eq_true, false_or, List.cons.injEq, Prod.mk.injEq, true_and, and_true,
      List.mem_singleton, forall_eq]
    refine Iff.trans ?_ (events_iff hStart hLast)
    constructor
    · rintro ⟨⟨found, hRaw, hTakes, rfl⟩, -⟩
      exact ⟨hRaw, hTakes⟩
    · rintro ⟨hRaw, hTakes⟩
      exact ⟨⟨_, hRaw, hTakes, rfl⟩, fun hIs => absurd hIs (by decide)⟩

theorem pathOperation_some_iff {path : Text} {op : Operation} : pathOperation method (String.ofList path) = some op ↔
    ∃ route params, Taken method path route params ∧ op = ⟨route.id, params⟩ := by
  rw [pathOperation]
  simp only [Option.bind_eq_some_iff, Option.map_eq_some_iff, Option.filter_eq_some_iff]
  constructor
  · rintro ⟨route, hClaimed, params, ⟨hBinds, hAnswers⟩, rfl⟩
    exact ⟨route, params, ⟨hClaimed, hBinds, hAnswers⟩, rfl⟩
  · rintro ⟨route, params, ⟨hClaimed, hBinds, hAnswers⟩, rfl⟩
    exact ⟨route, hClaimed, params, ⟨hBinds, hAnswers⟩, rfl⟩

theorem unserved_iff : appOperation site method decoded = none ↔ Unserved site method decoded := by
  rw [Option.eq_none_iff_forall_ne_some]
  constructor
  · intro hNone route hMem hMethod params hBind
    by_contra hNot
    obtain ⟨hAnswers, hFirst⟩ := not_or.mp hNot
    refine hNone ⟨route.id, params⟩ (appOperation_iff.mpr ⟨route, ⟨hMem, hMethod, hBind, fun hFile hArchive => ?_⟩, ?_, rfl⟩)
    · exact hFirst ⟨hFile, hArchive⟩
    · simpa using hAnswers
  · rintro h ⟨id, params⟩ hSome
    obtain ⟨route, hServes, hAnswers, -⟩ := appOperation_iff.mp hSome
    obtain hNot | ⟨hFile, hArchive⟩ := h route hServes.mem hServes.method params hServes.binds
    · cases hNot.symm.trans hAnswers
    · exact hServes.first hFile hArchive

/-- Both backends route alike just where the raw path is. -/
theorem routes_alike_iff (site : Site) (method : String) (hRaw : RawPath raw) :
    RoutesAlike site method raw ↔ Alike site method raw := by
  rw [RoutesAlike, handlerOperation, urlparsePath_raw hRaw, Option.bind_some]
  cases hOperation : pathOperation method (String.ofList (handlerPath raw)) with
  | some op =>
    obtain ⟨route, params, hTaken, rfl⟩ := pathOperation_some_iff.mp hOperation
    have hClaimed := hTaken.claimed
    obtain ⟨hReads, hMem, hMethod⟩ := claimed_reads hClaimed hTaken.binds hTaken.answers
    rw [String.toList_ofList] at hReads
    have hSame : some (Operation.mk route.id params) = appOperation site method (unquote raw) ↔
        route.id ∈ (fastapiRoutes site).map Route.id ∧ raw = handlerPath raw ∧ Kept route (handlerPath raw) params := by
      rw [eq_comm, appOperation_route_iff hTaken.answers hMethod, reads_iff (checked_of_mem hMem) hReads]
    rw [hSame]
    constructor
    · intro hKept
      refine ⟨fun other bound hOther => ?_, fun hNone => (hNone route params hTaken).elim⟩
      obtain rfl := Option.some.inj (hClaimed.symm.trans hOther.claimed)
      obtain rfl := Option.some.inj (hTaken.binds.symm.trans hOther.binds)
      exact hKept
    · exact fun h => h.taken route params hTaken
  | none =>
    have hNone (route : Route) (params : List (Name × Text)) : ¬Taken method (handlerPath raw) route params := by
      intro hTaken
      cases hOperation.symm.trans (pathOperation_some_iff.mpr ⟨route, params, hTaken, rfl⟩)
    rw [eq_comm, unserved_iff]
    exact ⟨fun h => ⟨fun route params hTaken => (hNone route params hTaken).elim, fun _ => h⟩, fun h => h.left hNone⟩

/-- A server at the device, without a token. -/
def localSite : Site where
  rt := ⟨fun _ => true, id⟩
  allowedHosts := []
  auth := ⟨none, false, false, fun _ => false, fun _ => none⟩
  userRole := none
  fileStore := false
  servesLocalRoutes := true

/-- A file of a run, whose name has an escape. -/
theorem routes_alike_file : Alike localSite "GET" "/runs/r1/a%20b.png".toList := by
  have hRaw : RawPath "/runs/r1/a%20b.png".toList := ⟨rfl, UrlSplit.plain_of_all (by decide +kernel)⟩
  refine (routes_alike_iff localSite "GET" hRaw).mp ?_
  rw [RoutesAlike]
  decide +kernel

/-- The events of a job whose id has an escape. -/
theorem events_not_alike : ¬∀ site method raw, RawPath raw → RoutesAlike site method raw := by
  intro h
  have hSame := h localSite "GET" "/api/jobs/a%20b/events".toList ⟨rfl, UrlSplit.plain_of_all (by decide +kernel)⟩
  rw [RoutesAlike] at hSame
  revert hSame
  decide +kernel

end Bajutsu.Serve.Dispatch
