import Bajutsu.Evidence.EvidenceRedactor
import Bajutsu.Evidence.RedactionLeak

/-!
# One redactor for several targets

A run with several targets redacts with the union of their blocks. What one target's own redactor masks, the
combined one masks too, where the combined key patterns begin with the target's own, no other target unmasks one
of its headers, and its text rules leave the other targets' labels as they are.
-/

namespace Bajutsu.Evidence

open Regex Occurrence

/-! ## Positions of what is left -/

theorem positions_append (text more : List Tracked) :
    positions (text ++ more) = positions text ++ positions more := List.filterMap_append

theorem positions_write (word : WordClass) (s : String) : positions ((Script.tracked word).write s) = [] := by
  rw [positions, Script.write, List.filterMap_map]
  exact List.filterMap_eq_nil_iff.mpr fun c _ => rfl

theorem positions_flatMap {ι : Type} (items : List ι) (f : ι → List Tracked) :
    positions (items.flatMap f) = items.flatMap fun item => positions (f item) := by
  induction items with
  | nil => rfl
  | cons item items ih => rw [List.flatMap_cons, List.flatMap_cons, positions_append, ih]

/-- Every position left in the first text is left in the second. -/
def LeftIn (text more : List Tracked) : Prop := positions text ⊆ positions more

namespace LeftIn

theorem refl (text : List Tracked) : LeftIn text text := fun _ hp => hp

theorem trans {a b c : List Tracked} (hab : LeftIn a b) (hbc : LeftIn b c) : LeftIn a c := fun _ hp => hbc (hab hp)

theorem append {a b c d : List Tracked} (hab : LeftIn a b) (hcd : LeftIn c d) : LeftIn (a ++ c) (b ++ d) := by
  intro p hp
  rw [positions_append, List.mem_append] at hp ⊢
  exact hp.imp (fun h => hab h) (fun h => hcd h)

theorem write (word : WordClass) (s : String) (text : List Tracked) : LeftIn ((Script.tracked word).write s) text := by
  rw [LeftIn, positions_write]
  exact List.nil_subset _

theorem flatMap {ι : Type} {items : List ι} {f g : ι → List Tracked} (h : ∀ item ∈ items, LeftIn (f item) (g item)) :
    LeftIn (items.flatMap f) (items.flatMap g) := by
  intro p hp
  rw [positions_flatMap, List.mem_flatMap] at hp ⊢
  obtain ⟨item, hItem, hp⟩ := hp
  exact ⟨item, hItem, h item hItem hp⟩

theorem of_stems {word : WordClass} {text later : List Tracked}
    (h : ∀ x ∈ later, Stems (.tracked word) text x) : LeftIn later text := by
  intro p hp
  obtain ⟨x, hx, hPlace⟩ := List.mem_filterMap.mp hp
  obtain hText | ⟨c, rfl⟩ := h x hx
  · exact List.mem_filterMap.mpr ⟨x, hText, hPlace⟩
  · cases hPlace

end LeftIn

/-! ## Two redactors -/

namespace EvidenceRedactor

variable (rt : Runtime) (lo : Lowering)

/-- What the redactor writes of a text whose characters remember their positions. -/
abbrev shown (self : EvidenceRedactor) (text : List Tracked) : List Tracked := self.redactText (.tracked rt.word) rt text

/-- A character of the artifact stood at this position, and the redactor does not write it. -/
def Masks (self : EvidenceRedactor) (artifact : Artifact Tracked) (p : Nat) : Prop :=
  p ∈ positions artifact.symbols ∧ p ∉ positions (self.redact (.tracked rt.word) rt lo artifact).symbols

def AsStrong (strong weak : EvidenceRedactor) : Prop :=
  ∀ artifact p, weak.Masks rt lo artifact p → strong.Masks rt lo artifact p

/-- Rule by rule, one redactor masks what the other masks. -/
structure Covers (strong weak : EvidenceRedactor) : Prop where
  text : ∀ text, LeftIn (strong.shown rt text) (weak.shown rt text)
  active : weak.active rt = true → strong.active rt = true
  headerNames : weak.headerNames ⊆ strong.headerNames
  keyNames : weak.keyNames ⊆ strong.keyNames
  labels : weak.labels ⊆ strong.labels
  labelText : ∀ text : List Tracked, text.map Prod.fst ∈ strong.labels → text.map Prod.fst ∉ weak.labels →
    LeftIn text (weak.shown rt text)
  secureFields : weak.maskSecureFields = true → strong.maskSecureFields = true
  credentialNames : weak.maskCredentialNames = true → strong.maskCredentialNames = true

variable {strong weak : EvidenceRedactor}

theorem shown_within (self : EvidenceRedactor) (text : List Tracked) : LeftIn (self.shown rt text) text :=
  .of_stems fun _ hx => stems_redactTextOn hx

theorem field_within (self : EvidenceRedactor) (text : List Tracked) :
    LeftIn (self.redactField (.tracked rt.word) rt text) text := by
  rw [redactField]
  split
  · exact .refl text
  · exact self.shown_within rt text

theorem optional_within {f g : List Tracked → List Tracked} (h : ∀ text, LeftIn (f text) (g text))
    (text : Option (List Tracked)) : LeftIn (optional (text.map f)) (optional (text.map g)) := by
  cases text with
  | none => exact .refl []
  | some text => exact h text

theorem headers_within {f g : List Char × List Tracked → List Char × List Tracked}
    (h : ∀ header, LeftIn (f header).2 (g header).2) (headers : Option (List (List Char × List Tracked))) :
    LeftIn (headerSymbols (headers.map (List.map f))) (headerSymbols (headers.map (List.map g))) := by
  cases headers with
  | none => exact .refl []
  | some headers =>
    simp only [headerSymbols, Option.map_some, Option.getD_some, List.flatMap_map]
    exact .flatMap fun header _ => h header

theorem optional_left {f : List Tracked → List Tracked} (h : ∀ text, LeftIn (f text) text)
    (text : Option (List Tracked)) : LeftIn (optional (text.map f)) (optional text) := by
  have hLeft := optional_within h text
  rwa [Option.map_id'] at hLeft

theorem headers_left {f : List Char × List Tracked → List Char × List Tracked}
    (h : ∀ header, LeftIn (f header).2 header.2) (headers : Option (List (List Char × List Tracked))) :
    LeftIn (headerSymbols (headers.map (List.map f))) (headerSymbols headers) := by
  have hLeft := headers_within h headers
  rwa [List.map_id_fun', Option.map_id] at hLeft

theorem element_within (self : EvidenceRedactor) (el : Element Tracked) :
    LeftIn (self.redactElement (.tracked rt.word) rt el).symbols el.symbols := by
  have hField := optional_left (self.field_within rt)
  rw [redactElement]
  split
  · exact (LeftIn.refl _).append (.write rt.word placeholder _)
  · refine (hField el.label).append ?_
    dsimp only
    split
    · exact .write rt.word placeholder _
    · exact hField el.value

theorem header_within (self : EvidenceRedactor) (header : List Char × List Tracked) :
    LeftIn (self.redactHeader (.tracked rt.word) rt lo header).2 header.2 := by
  rw [redactHeader]
  dsimp only
  split
  · exact .write rt.word placeholder _
  · exact self.shown_within rt header.2

mutual

theorem data_within (self : EvidenceRedactor) (keys : Bool) (data : Data Tracked) :
    LeftIn (self.redactData (.tracked rt.word) rt lo keys data).symbols data.symbols := by
  cases data with
  | str text => exact self.shown_within rt text
  | scalar x => exact .refl [x]
  | dict members => exact members_within self keys members
  | list items => exact items_within self keys items

theorem members_within (self : EvidenceRedactor) (keys : Bool) (members : List (List Char × Data Tracked)) :
    LeftIn (memberSymbols (self.redactMembers (.tracked rt.word) rt lo keys members)) (memberSymbols members) := by
  match members with
  | [] => exact .refl []
  | (key, value) :: members =>
    apply LeftIn.append _ (members_within self keys members)
    split
    · exact .write rt.word placeholder _
    · exact data_within self keys value

theorem items_within (self : EvidenceRedactor) (keys : Bool) (items : List (Data Tracked)) :
    LeftIn (itemSymbols (self.redactItems (.tracked rt.word) rt lo keys items)) (itemSymbols items) := by
  match items with
  | [] => exact .refl []
  | item :: items => exact (data_within self keys item).append (items_within self keys items)

end

theorem redact_within (self : EvidenceRedactor) (artifact : Artifact Tracked) :
    LeftIn (self.redact (.tracked rt.word) rt lo artifact).symbols artifact.symbols := by
  cases artifact with
  | text text => exact self.shown_within rt text
  | elements elements =>
    rw [redact, redactElements]
    split
    · rw [Artifact.symbols, List.flatMap_map]
      exact .flatMap fun el _ => self.element_within rt el
    · exact .refl _
  | exchange exchange =>
    have hText := optional_left (self.shown_within rt)
    have hHeaders := headers_left (self.header_within rt lo)
    rw [redact, redactExchange]
    split
    · exact ((((hHeaders _).append (hHeaders _)).append (hText _)).append (hText _)).append (hText _)
    · exact .refl _
  | structured keys data =>
    rw [redact, redactStructure]
    split
    · exact self.data_within rt lo keys data
    · exact .refl _

/-! ## What one redactor masks, a stronger one masks -/

namespace Covers

theorem field (h : Covers rt strong weak) (text : List Tracked) :
    LeftIn (strong.redactField (.tracked rt.word) rt text) (weak.redactField (.tracked rt.word) rt text) := by
  rw [redactField, redactField]
  split
  · exact .refl text
  · exact h.text text

theorem labelled (h : Covers rt strong weak) {label : Option (List Char)}
    (hWeak : label.any weak.labels.contains = true) : label.any strong.labels.contains = true := by
  cases label with
  | none => cases hWeak
  | some label =>
    rw [Option.any_some, List.contains_iff_mem] at hWeak ⊢
    exact h.labels hWeak

theorem masksByDefault (h : Covers rt strong weak) {identifier label : Option (List Tracked)} {traits : List String}
    (hMasks : weak.masksByDefault (.tracked rt.word) rt identifier label traits = true) :
    strong.masksByDefault (.tracked rt.word) rt identifier label traits = true := by
  rw [EvidenceRedactor.masksByDefault, Bool.or_eq_true, Bool.and_eq_true, Bool.and_eq_true] at hMasks ⊢
  exact hMasks.imp (fun hTrait => ⟨h.secureFields hTrait.1, hTrait.2⟩)
    (fun hName => ⟨h.credentialNames hName.1, hName.2⟩)

theorem element (h : Covers rt strong weak) (el : Element Tracked) :
    LeftIn (strong.redactElement (.tracked rt.word) rt el).symbols
      (weak.redactElement (.tracked rt.word) rt el).symbols := by
  rw [redactElement, redactElement]
  have hValue (masked : Option (List Tracked)) :
      LeftIn (optional (some ((Script.tracked rt.word).write placeholder))) (optional masked) :=
    .write rt.word placeholder _
  split
  · rename_i hStrong
    split
    · exact .refl _
    · rename_i hWeak
      refine LeftIn.append ?_ (hValue _)
      -- Only the stronger redactor knows the label, and leaves its text as it is.
      cases hLabel : el.label with
      | none => exact .refl []
      | some label =>
        simp only [hLabel, Option.map_some, Option.any_some, List.contains_iff_mem] at hStrong hWeak
        change LeftIn label (weak.redactField (.tracked rt.word) rt label)
        rw [redactField]
        split
        · exact .refl label
        · exact h.labelText label hStrong hWeak
  · rename_i hStrong
    rw [if_neg fun hWeak => hStrong (h.labelled rt hWeak)]
    refine (optional_within (h.field rt) el.label).append ?_
    dsimp only
    split
    · exact hValue _
    · rename_i hNone
      rw [if_neg fun hMasks => hNone (h.masksByDefault rt hMasks)]
      exact optional_within (h.field rt) el.value

theorem header (h : Covers rt strong weak) (header : List Char × List Tracked) :
    LeftIn (strong.redactHeader (.tracked rt.word) rt lo header).2
      (weak.redactHeader (.tracked rt.word) rt lo header).2 := by
  rw [redactHeader, redactHeader]
  dsimp only
  split
  · exact .write rt.word placeholder _
  · rename_i hName
    rw [if_neg]
    · exact h.text header.2
    · intro hWeak
      rw [List.contains_iff_mem] at hName hWeak
      exact hName (h.headerNames hWeak)

mutual

theorem data (h : Covers rt strong weak) (keys : Bool) (data : Data Tracked) :
    LeftIn (strong.redactData (.tracked rt.word) rt lo keys data).symbols
      (weak.redactData (.tracked rt.word) rt lo keys data).symbols := by
  cases data with
  | str text => exact h.text text
  | scalar x => exact .refl [x]
  | dict members => exact Covers.members h keys members
  | list items => exact Covers.items h keys items

theorem members (h : Covers rt strong weak) (keys : Bool) (members : List (List Char × Data Tracked)) :
    LeftIn (memberSymbols (strong.redactMembers (.tracked rt.word) rt lo keys members))
      (memberSymbols (weak.redactMembers (.tracked rt.word) rt lo keys members)) := by
  match members with
  | [] => exact .refl []
  | (key, value) :: members =>
    apply LeftIn.append _ (Covers.members h keys members)
    split
    · exact .write rt.word placeholder _
    · rename_i hKey
      rw [if_neg]
      · exact Covers.data h keys value
      · intro hWeak
        apply hKey
        rw [Bool.and_eq_true, List.contains_iff_mem] at hWeak ⊢
        exact ⟨hWeak.1, h.keyNames hWeak.2⟩

theorem items (h : Covers rt strong weak) (keys : Bool) (items : List (Data Tracked)) :
    LeftIn (itemSymbols (strong.redactItems (.tracked rt.word) rt lo keys items))
      (itemSymbols (weak.redactItems (.tracked rt.word) rt lo keys items)) := by
  match items with
  | [] => exact .refl []
  | item :: items => exact (Covers.data h keys item).append (Covers.items h keys items)

end

theorem redact (h : Covers rt strong weak) (artifact : Artifact Tracked) :
    LeftIn (strong.redact (.tracked rt.word) rt lo artifact).symbols
      (weak.redact (.tracked rt.word) rt lo artifact).symbols := by
  -- A redactor that leaves the artifact alone shows what any redactor shows of it.
  have hAlone := strong.redact_within rt lo artifact
  cases artifact with
  | text text => exact h.text text
  | elements elements =>
    rw [EvidenceRedactor.redact, EvidenceRedactor.redact, redactElements, redactElements]
    split
    · split
      · rw [Artifact.symbols, Artifact.symbols, List.flatMap_map, List.flatMap_map]
        exact .flatMap fun el _ => h.element rt el
      · rename_i hStrong hWeak
        rw [EvidenceRedactor.redact, redactElements, if_pos hStrong] at hAlone
        exact hAlone
    · rename_i hStrong
      rw [if_neg]
      · exact .refl _
      · intro hWeak
        apply hStrong
        rw [Bool.or_eq_true, Bool.or_eq_true] at hWeak ⊢
        exact hWeak.imp (fun hFirst => hFirst.imp h.active h.secureFields) h.credentialNames
  | exchange exchange =>
    rw [EvidenceRedactor.redact, EvidenceRedactor.redact, redactExchange, redactExchange]
    split
    · split
      · have hHeaders := headers_within (h.header rt lo)
        have hText := optional_within h.text
        exact ((((hHeaders _).append (hHeaders _)).append (hText _)).append (hText _)).append (hText _)
      · rename_i hStrong hWeak
        rw [EvidenceRedactor.redact, redactExchange, if_pos hStrong] at hAlone
        exact hAlone
    · rename_i hStrong
      rw [if_neg]
      · exact .refl _
      · intro hWeak
        apply hStrong
        rw [Bool.or_eq_true, decide_eq_true_eq] at hWeak ⊢
        refine hWeak.imp h.active fun hSome hNone => hSome ?_
        have hNames := h.headerNames
        rw [hNone] at hNames
        exact List.subset_nil.mp hNames
  | structured keys data =>
    rw [EvidenceRedactor.redact, EvidenceRedactor.redact, redactStructure, redactStructure]
    split
    · split
      · exact h.data rt lo keys data
      · rename_i hStrong hWeak
        rw [EvidenceRedactor.redact, redactStructure, if_pos hStrong] at hAlone
        exact hAlone
    · rename_i hStrong
      rw [if_neg fun hWeak => hStrong (h.active hWeak)]
      exact .refl _

theorem asStrong (h : Covers rt strong weak) : strong.AsStrong rt lo weak := by
  intro artifact p hMasks
  exact ⟨hMasks.1, fun hShown => hMasks.2 (h.redact rt lo artifact hShown)⟩

end Covers

/-! ## The union of the targets' blocks -/

theorem mem_withCookieLinkage {names : List (List Char)} {name : List Char} :
    name ∈ withCookieLinkage names ↔ name ∈ names ∨ (name ∈ cookieHeaders ∧ ∃ n ∈ names, n ∈ cookieHeaders) := by
  have hAny : names.any cookieHeaders.contains = true ↔ ∃ n ∈ names, n ∈ cookieHeaders := by
    simp only [List.any_eq_true, List.contains_iff_mem]
  rw [withCookieLinkage]
  split
  · rename_i hCookie
    rw [List.mem_append]
    exact or_congr_right ⟨fun hName => ⟨hName, hAny.mp hCookie⟩, And.left⟩
  · rename_i hCookie
    exact ⟨.inl, fun hName => hName.resolve_right fun hLinked => hCookie (hAny.mpr hLinked.2)⟩

theorem withCookieLinkage_subset {names more : List (List Char)} (h : names ⊆ more) :
    withCookieLinkage names ⊆ withCookieLinkage more := by
  intro name hName
  rw [mem_withCookieLinkage] at hName ⊢
  exact hName.imp (fun hMem => h hMem) fun ⟨hCookie, n, hMem, hn⟩ => ⟨hCookie, n, h hMem, hn⟩

theorem mem_unmasked_union {lo : Lowering} {names : List (List Char)} {name : List Char} :
    name ∈ withCookieLinkage (names.eraseDups.map lo.lower) ↔ name ∈ withCookieLinkage (names.map lo.lower) := by
  have hSame : ∀ n, n ∈ names.eraseDups.map lo.lower ↔ n ∈ names.map lo.lower := by
    simp only [List.mem_map, List.mem_eraseDups, implies_true]
  exact ⟨fun h => withCookieLinkage_subset (fun n hn => (hSame n).mp hn) h,
    fun h => withCookieLinkage_subset (fun n hn => (hSame n).mpr hn) h⟩

section Union

variable (rt : Runtime) (lo : Lowering) (values : List (List Char)) (targets : List Redact)

/-- The redactor that a target's own block makes. -/
abbrev own (target : Redact) : EvidenceRedactor := make lo target values

/-- The redactor of the run's targets together. -/
abbrev combined : EvidenceRedactor := make lo (unionRedact targets) values

/-- The combined key patterns begin with the target's own, and where there are secret values they are its own. -/
structure KeysKept (target : Redact) : Prop where
  first : (own lo values target).keys <+: (combined lo values targets).keys
  same : (own lo values target).rawValues ≠ [] → (own lo values target).keys = (combined lo values targets).keys

/-- No target unmasks a header that this one masks. -/
def HeadersKept (target : Redact) : Prop :=
  ∀ name ∈ (own lo values target).headerNames,
    name ∉ withCookieLinkage ((targets.flatMap Redact.unmaskHeaders).map lo.lower)

/-- The target's text rules leave the labels that other targets configure as they are. -/
def LabelsKept (target : Redact) : Prop :=
  ∀ text : List Tracked, text.map Prod.fst ∈ targets.flatMap Redact.labels → text.map Prod.fst ∉ target.labels →
    LeftIn text ((own lo values target).shown rt text)

/-- In free text the combined redactor leaves nothing that the target's own does not leave. -/
def TextKept (target : Redact) : Prop :=
  ∀ text, LeftIn ((combined lo values targets).shown rt text) ((own lo values target).shown rt text)

variable {rt lo values targets} {target : Redact}

theorem unionRedact_of_mem (h : target ∈ targets) :
    unionRedact targets =
      { labels := (targets.flatMap Redact.labels).eraseDups
        headers := (targets.flatMap Redact.headers).eraseDups
        fields := (targets.flatMap Redact.fields).eraseDups
        unmaskHeaders := (targets.flatMap Redact.unmaskHeaders).eraseDups
        unmaskSecureFields := targets.all Redact.unmaskSecureFields
        unmaskCredentialNames := targets.all Redact.unmaskCredentialNames } :=
  if_neg (List.ne_nil_of_mem h)

theorem combined_labels (lo : Lowering) (values : List (List Char)) (h : target ∈ targets) (label : List Char) :
    label ∈ (combined lo values targets).labels ↔ label ∈ targets.flatMap Redact.labels := by
  rw [combined, unionRedact_of_mem h]
  exact List.mem_eraseDups

theorem own_keys_subset (lo : Lowering) (values : List (List Char)) (h : target ∈ targets) :
    (own lo values target).keys ⊆ (combined lo values targets).keys := by
  intro key hKey
  rw [combined, unionRedact_of_mem h]
  obtain hHeader | hField := List.mem_append.mp hKey
  · apply List.mem_append_left
    exact List.mem_eraseDups.mpr (List.mem_flatMap.mpr ⟨target, h, hHeader⟩)
  · apply List.mem_append_right
    exact List.mem_eraseDups.mpr (List.mem_flatMap.mpr ⟨target, h, hField⟩)

theorem combined_headerNames (h : target ∈ targets) (hKept : HeadersKept lo values targets target) :
    (own lo values target).headerNames ⊆ (combined lo values targets).headerNames := by
  intro name hName
  have hUnmasked := hKept name hName
  have hMasked := (List.mem_filter.mp hName).1
  rw [combined, unionRedact_of_mem h]
  apply List.mem_filter.mpr
  constructor
  · rw [List.mem_append] at hMasked ⊢
    apply hMasked.imp_right
    apply withCookieLinkage_subset
    apply List.map_subset
    intro header hHeader
    exact List.mem_eraseDups.mpr (List.mem_flatMap.mpr ⟨target, h, hHeader⟩)
  · rw [decide_eq_true_eq, mem_unmasked_union]
    exact hUnmasked

theorem combined_active (h : target ∈ targets) (hActive : (own lo values target).active rt = true) :
    (combined lo values targets).active rt = true := by
  have hKeys := own_keys_subset lo values h
  rw [active, Bool.or_eq_true, Bool.or_eq_true, Bool.or_eq_true, decide_eq_true_eq, decide_eq_true_eq] at hActive ⊢
  refine hActive.imp_left (Or.imp_left (Or.imp ?_ ?_))
  · intro hSome hNone
    rw [hNone] at hKeys
    exact hSome (List.subset_nil.mp hKeys)
  · intro hSome hNone
    obtain ⟨label, hLabel⟩ := List.exists_mem_of_ne_nil _ hSome
    have hMem := (combined_labels lo values h label).mpr (List.mem_flatMap.mpr ⟨target, h, hLabel⟩)
    rw [hNone] at hMem
    cases hMem

theorem combined_flag {flag : Redact → Bool} (h : target ∈ targets) (hOwn : (!flag target) = true) :
    (!targets.all flag) = true := by
  rw [Bool.not_eq_true'] at hOwn ⊢
  exact List.all_eq_false.mpr ⟨target, h, by simp [hOwn]⟩

/-- Where text, headers and labels are kept, the combined redactor masks what the target's own masks. -/
theorem combined_covers (h : target ∈ targets) (hText : TextKept rt lo values targets target)
    (hHeaders : HeadersKept lo values targets target) (hLabels : LabelsKept rt lo values targets target) :
    Covers rt (combined lo values targets) (own lo values target) where
  text := hText
  active := combined_active h
  headerNames := combined_headerNames h hHeaders
  keyNames := List.map_subset _ (own_keys_subset lo values h)
  labels label hLabel := (combined_labels lo values h label).mpr (List.mem_flatMap.mpr ⟨target, h, hLabel⟩)
  labelText text hMem hOther := hLabels text ((combined_labels lo values h _).mp hMem) hOther
  secureFields hOwn := by
    rw [combined, unionRedact_of_mem h]
    exact combined_flag h hOwn
  credentialNames hOwn := by
    rw [combined, unionRedact_of_mem h]
    exact combined_flag h hOwn

theorem patterns_append (keys more : List (List Char)) :
    rt.patterns (keys ++ more) = rt.patterns keys ++ rt.patterns more := List.flatMap_append

theorem KeysKept.textKept (h : KeysKept lo values targets target) : TextKept rt lo values targets target := by
  intro text
  by_cases hValues : (own lo values target).rawValues = []
  · -- Without secret values the target's own passes come first, and what follows only takes more.
    obtain ⟨more, hMore⟩ := h.first
    have hPlain (redact : Redact) (hRaw : (make lo redact values).rawValues = []) :
        (make lo redact values).shown rt text =
          Redactor.keyPassOn (.tracked rt.word) (rt.patterns (make lo redact values).keys) text := by
      rw [shown, redactText, Redactor.redactTextOn, Redactor.redactValuesOn, if_pos hRaw, hRaw, searchTerms_nil,
        show (make lo redact values).derived = [] from rfl, searchTerms_nil]
      rfl
    rw [hPlain target hValues, hPlain (unionRedact targets) hValues, ← hMore, patterns_append,
      Redactor.keyPassOn, List.foldl_append]
    exact .of_stems fun _ hx => stems_keyPassOn hx
  · have hSame : (own lo values target).toRedactor = (combined lo values targets).toRedactor := by
      have hKeys := h.same hValues
      simp only [own, combined, make, Redactor.make, Redactor.mk.injEq] at hKeys ⊢
      exact ⟨hKeys, trivial, trivial⟩
    rw [shown, shown, redactText, redactText, hSame]
    exact .refl _

/-! ## What the combined redactor must keep -/

theorem patterns_least {keys : List (List Char)} {pattern : Keyed × List Char} (h : pattern ∈ rt.patterns keys) :
    0 < pattern.1.group.least ∧ 0 < pattern.1.value.least := by
  obtain ⟨key, -, h⟩ := List.mem_flatMap.mp h
  simp only [List.mem_cons, List.not_mem_nil, or_false] at h
  obtain rfl | rfl | rfl := h <;>
    simp [Runtime.jsonPattern, Runtime.queryPattern, Runtime.headerPattern, Re.least, jsonString, someOf, Re.atLeast,
      Re.exactly, Re.char]

theorem shown_single {x : Tracked} (h : [x.1] ∉ rt.searchTerms (own lo values target).rawValues) :
    (own lo values target).shown rt [x] = [x] := by
  have hKey (patterns : List (Keyed × List Char))
      (hLeast : ∀ pattern ∈ patterns, 0 < pattern.1.group.least ∧ 0 < pattern.1.value.least) :
      Redactor.keyPassOn (.tracked rt.word) patterns [x] = [x] := by
    induction patterns with
    | nil => rfl
    | cons pattern patterns ih =>
      obtain ⟨⟨hGroup, hValue⟩, hRest⟩ := List.forall_mem_cons.mp hLeast
      rw [Redactor.keyPassOn, List.foldl_cons, Redactor.keyCutOn, Keyed.cut_single hGroup hValue]
      exact ih hRest
  have hTerms (terms : List (List Char)) (hNone : ∀ term ∈ terms, term ≠ [] ∧ term ≠ [x.1]) :
      Redactor.replaceTermsOn (.tracked rt.word) terms [x] = [x] := by
    induction terms with
    | nil => rfl
    | cons term terms ih =>
      obtain ⟨⟨hNil, hSingle⟩, hRest⟩ := List.forall_mem_cons.mp hNone
      have hHere : ¬term <+: [x.1] := by
        intro hFirst
        obtain ⟨c, more, rfl⟩ := List.exists_cons_of_ne_nil hNil
        obtain ⟨rfl, hMore⟩ := List.cons_prefix_cons.mp hFirst
        rw [List.prefix_nil.mp hMore] at hSingle
        exact hSingle rfl
      rw [Redactor.replaceTermsOn, List.foldl_cons, List.length_singleton, replaceSymbols,
        if_neg (by simpa [Script.tracked] using hHere)]
      exact ih hRest
  have hRaw : ∀ term ∈ rt.searchTerms (own lo values target).rawValues, term ≠ [] ∧ term ≠ [x.1] := by
    intro term hTerm
    obtain ⟨value, hValue, hForm⟩ := mem_searchTerms_all hTerm
    refine ⟨forms_ne_nil (of_decide_eq_true (List.mem_filter.mp hValue).2) hForm, ?_⟩
    rintro rfl
    exact h hTerm
  have hBasic : Redactor.basicCutOn (.tracked rt.word) rt (own lo values target).rawValues [x] = [.kept x] := by
    apply Keyed.cut_single
    · simp [Runtime.basicAuth, Re.least, someOf, Re.atLeast, Re.exactly]
    · simp [Runtime.basicAuth, Re.least, someOf, Re.atLeast, Re.exactly]
  rw [shown, redactText, Redactor.redactTextOn, Redactor.redactValuesOn, hKey _ fun pattern h => patterns_least h,
    show (own lo values target).derived = [] from rfl, searchTerms_nil, hBasic]
  split <;> exact hTerms _ hRaw

theorem lower_ascii (lo : Lowering) {name : List Char} (hAscii : name.all (fun c => c.toNat < 128) = true)
    (hLower : name.map Char.toLower = name) : lo.lower name = name := by
  rw [lo.ascii name (by simpa using hAscii), hLower]

theorem headerName_lower {name : List Char} (h : name ∈ (own lo values target).headerNames) :
    ∃ header, lo.lower header = name := by
  have hDefault : ∀ header ∈ defaultSensitiveHeaders, lo.lower header = header := by
    intro header hHeader
    have hAll : defaultSensitiveHeaders.all (fun header =>
        header.all (fun c => c.toNat < 128) && decide (header.map Char.toLower = header)) = true := by decide
    have hOne := List.all_eq_true.mp hAll header hHeader
    rw [Bool.and_eq_true, decide_eq_true_eq] at hOne
    exact lower_ascii lo hOne.1 hOne.2
  have hCookie : ∀ header ∈ cookieHeaders, header ∈ defaultSensitiveHeaders := by decide
  obtain hMem | hMem := List.mem_append.mp (List.mem_filter.mp h).1
  · exact ⟨name, hDefault name hMem⟩
  · obtain hNamed | hLinked := mem_withCookieLinkage.mp hMem
    · obtain ⟨header, -, hHeader⟩ := List.mem_map.mp hNamed
      exact ⟨header, hHeader⟩
    · exact ⟨name, hDefault name (hCookie name hLinked.1)⟩

theorem positions_single (c : Char) (p : Nat) : positions [(c, some p)] = [p] := rfl

theorem AsStrong.text {strong weak : EvidenceRedactor} (h : strong.AsStrong rt lo weak) (text : List Tracked) :
    LeftIn (strong.shown rt text) (weak.shown rt text) := by
  intro p hp
  by_contra hWeak
  have hText := strong.shown_within rt text hp
  exact (h (.text text) p ⟨hText, hWeak⟩).2 hp

theorem AsStrong.headersKept {c : Char} (hPlain : [c] ∉ rt.searchTerms (own lo values target).rawValues)
    (hMem : target ∈ targets) (h : (combined lo values targets).AsStrong rt lo (own lo values target)) :
    HeadersKept lo values targets target := by
  intro name hName hUnmasked
  obtain ⟨header, rfl⟩ := headerName_lower hName
  have hFree : lo.lower header ∉ (combined lo values targets).headerNames := by
    rw [combined, unionRedact_of_mem hMem]
    intro hMasked
    have hKeep := of_decide_eq_true (List.mem_filter.mp hMasked).2
    exact hKeep (mem_unmasked_union.mpr hUnmasked)
  have hNames : (own lo values target).headerNames ≠ [] := List.ne_nil_of_mem hName
  obtain ⟨-, hGone⟩ := h (.exchange { requestHeaders := some [(header, [(c, some 0)])] }) 0 (by
    constructor
    · exact List.mem_cons_self
    · rw [redact, redactExchange, if_pos (by simp [hNames])]
      simp [Artifact.symbols, Exchange.symbols, headerSymbols, optional, redactHeader, hName, positions_write])
  apply hGone
  have hSingle : (combined lo values targets).shown rt [(c, some 0)] = [(c, some 0)] := shown_single hPlain
  rw [redact, redactExchange]
  split
  · have hHeader : (combined lo values targets).redactHeader (.tracked rt.word) rt lo (header, [(c, some 0)]) =
        (header, [(c, some 0)]) := by
      rw [redactHeader, if_neg (by simpa using hFree)]
      exact congrArg (Prod.mk header) hSingle
    simp [Artifact.symbols, Exchange.symbols, headerSymbols, optional, hHeader, positions_single]
  · simp [Artifact.symbols, Exchange.symbols, headerSymbols, optional, positions_single]

theorem redactText_inactive {text : List Tracked} (h : ¬(own lo values target).active rt = true) :
    (own lo values target).shown rt text = text := by
  rw [active, Bool.or_eq_true, Bool.or_eq_true, Bool.or_eq_true] at h
  simp only [decide_eq_true_eq, not_or, not_not] at h
  obtain ⟨⟨⟨hKeys, -⟩, hTerms⟩, hDerived⟩ := h
  have hRaw : (own lo values target).rawValues = [] := by
    rw [List.eq_nil_iff_forall_not_mem]
    intro value hValue
    have hTerm : value ∈ rt.searchTerms (own lo values target).rawValues := by
      rw [Runtime.searchTerms, List.mem_insertionSort, (rt.setOrder_perm _).mem_iff, List.mem_dedup]
      exact List.mem_append_left _ hValue
    rw [hTerms] at hTerm
    cases hTerm
  rw [shown, redactText, Redactor.redactTextOn, Redactor.redactValuesOn, if_pos hRaw, hTerms, hDerived, hKeys]
  rfl

theorem AsStrong.labelsKept (hMem : target ∈ targets)
    (h : (combined lo values targets).AsStrong rt lo (own lo values target)) :
    LabelsKept rt lo values targets target := by
  intro text hLabel hOther p hp
  by_contra hGone
  have hSome : text ≠ [] := by
    rintro rfl
    cases hp
  have hLabelled : (combined lo values targets).redactElement (.tracked rt.word) rt ⟨none, some text, none, []⟩ =
      ⟨none, some text, some ((Script.tracked rt.word).write placeholder), []⟩ := by
    rw [redactElement, if_pos]
    rw [Option.map_some, Option.any_some, List.contains_iff_mem]
    exact (combined_labels lo values hMem _).mpr hLabel
  have hOwn : (own lo values target).redactElement (.tracked rt.word) rt ⟨none, some text, none, []⟩ =
      ⟨none, some ((own lo values target).shown rt text),
        if (own lo values target).masksByDefault (.tracked rt.word) rt none (some text) [] then
          some ((Script.tracked rt.word).write placeholder) else none, []⟩ := by
    rw [redactElement, if_neg]
    · simp [redactField, hSome]
    · rw [Option.map_some, Option.any_some, List.contains_iff_mem]
      exact hOther
  obtain ⟨-, hHidden⟩ := h (.elements [⟨none, some text, none, []⟩]) p (by
    constructor
    · simpa [Artifact.symbols, Element.symbols, optional] using hp
    · rw [redact, redactElements]
      split
      · rw [List.map_singleton, hOwn]
        simp only [Artifact.symbols, List.flatMap_singleton, Element.symbols, optional, positions_append,
          List.mem_append, Option.getD_some, not_or]
        refine ⟨hGone, ?_⟩
        split
        · simp [positions_write]
        · simp [positions]
      · rename_i hInactive
        rw [Bool.or_eq_true, Bool.or_eq_true, not_or, not_or] at hInactive
        rw [redactText_inactive hInactive.1.1] at hGone
        exact absurd hp hGone)
  apply hHidden
  rw [redact, redactElements]
  split
  · rw [List.map_singleton, hLabelled]
    simp only [Artifact.symbols, List.flatMap_singleton, Element.symbols, optional, positions_append,
      List.mem_append, Option.getD_some]
    exact .inl hp
  · simpa [Artifact.symbols, Element.symbols, optional] using hp

/-- The combined redactor is as strong as each target's own exactly where no target unmasks a header another one
masks, no target's text rules touch a label another one configures, and in free text nothing more is left; which it
is where the combined key patterns begin with the target's own, and are its own where there are secret values. -/
theorem union_redact_as_strong (rt : Runtime) (lo : Lowering) (values : List (List Char)) (targets : List Redact)
    (target : Redact) (hMem : target ∈ targets) :
    (KeysKept lo values targets target → TextKept rt lo values targets target) ∧
      (TextKept rt lo values targets target ∧ HeadersKept lo values targets target ∧
          LabelsKept rt lo values targets target →
        (combined lo values targets).AsStrong rt lo (own lo values target)) ∧
      ((∃ c, [c] ∉ rt.searchTerms (own lo values target).rawValues) →
        (combined lo values targets).AsStrong rt lo (own lo values target) →
        TextKept rt lo values targets target ∧ HeadersKept lo values targets target ∧
          LabelsKept rt lo values targets target) := by
  refine ⟨KeysKept.textKept, ?_, ?_⟩
  · rintro ⟨hText, hHeaders, hLabels⟩
    exact (combined_covers hMem hText hHeaders hLabels).asStrong rt lo
  · rintro ⟨c, hPlain⟩ hStrong
    exact ⟨hStrong.text, hStrong.headersKept hPlain hMem, hStrong.labelsKept hMem⟩

end Union

/-! ## Two targets -/

def asciiLowering : Lowering where
  lower s := s.map Char.toLower
  ascii _ _ := rfl

def tokenField : Redact := { fields := ["token".toList] }

def pinField : Redact := { fields := ["pin".toList] }

theorem union_redact_as_strong_token :
    (combined asciiLowering [] [tokenField, pinField]).AsStrong asciiRuntime asciiLowering
      (own asciiLowering [] tokenField) := by
  obtain ⟨hKeys, hStrong, -⟩ :=
    union_redact_as_strong asciiRuntime asciiLowering [] [tokenField, pinField] tokenField List.mem_cons_self
  refine hStrong ⟨hKeys ?_, ?_, ?_⟩
  · exact ⟨⟨["pin".toList], rfl⟩, fun hValues => absurd rfl hValues⟩
  · intro name hName
    rintro ⟨⟩
  · intro text hLabel
    cases hLabel

/-- One target unmasks `Authorization`, and the other target's header is shown. -/
theorem union_unmasks_header :
    ¬∀ (rt : Runtime) (lo : Lowering) (values : List (List Char)) (targets : List Redact) (target : Redact),
      target ∈ targets → (combined lo values targets).AsStrong rt lo (own lo values target) := by
  intro hAll
  have hStrong := hAll asciiRuntime asciiLowering [] [{ unmaskHeaders := ["Authorization".toList] }, {}] {} (by simp)
  have hMasks := hStrong (.exchange { requestHeaders := some [("Authorization".toList, [('x', some 0)])] }) 0
    ⟨List.mem_cons_self, by decide +kernel⟩
  exact absurd hMasks.2 (by decide +kernel)

/-- The pattern of `pin` takes the name `token`, and what stands behind it is shown. -/
example :
    (combined asciiLowering [] [pinField, tokenField]).toRedactor.redactText asciiRuntime "pin=token =x".toList =
        "pin=[REDACTED] =x".toList ∧
      (own asciiLowering [] tokenField).toRedactor.redactText asciiRuntime "pin=token =x".toList =
        "pin=token =[REDACTED]".toList := by
  decide +kernel

end EvidenceRedactor

end Bajutsu.Evidence
