import TdsAdmin.Haproxy.Backends

/-!
# The file that `update-haproxy.py` keeps

In one process the keys that are required grow with every call, and the second text of a run is
made of instances that the first has given tags. Neither matters: in every run of a process, however
many there were before, the file becomes what a new process makes of the instances of that run, and
the service is restarted exactly when that is not what the file was (`file_follows`).
-/

set_option autoImplicit false

namespace TdsAdmin
namespace Haproxy

/-! ## Keys -/

/-- Lists with the same members. -/
def SameKeys (keys keys' : List Text) : Prop := ∀ key, key ∈ keys ↔ key ∈ keys'

theorem missingTags_eq_nil {keys : List Text} {i : Instance} :
    missingTags keys i = [] ↔ ∀ key ∈ keys, (i.tags key).isSome = true := by
  rw [missingTags, List.filter_eq_nil_iff]
  simp [Option.isSome_iff_ne_none]

section Same

variable {keys keys' prefixes : List Text} {i : Instance}

theorem SameKeys.include (h : SameKeys keys keys') (prefixes : List Text) (i : Instance) :
    include? keys prefixes i = include? keys' prefixes i := by
  have hmissing : missingTags keys i = [] ↔ missingTags keys' i = [] := by
    rw [missingTags_eq_nil, missingTags_eq_nil]
    apply forall_congr'
    intro key
    rw [h key]
  unfold include?
  by_cases hkeys : missingTags keys i = []
  · rw [if_pos hkeys, if_pos (hmissing.mp hkeys)]
  · rw [if_neg hkeys, if_neg (mt hmissing.mpr hkeys)]

/-- The tag that `get_acls` sets is none that it reads. -/
structure Unread (keys prefixes : List Text) : Prop where
  key : "backend".toList ∉ keys
  prefixes : "backend".toList ∉ prefixes

theorem setTag_other {key value other : Text} (h : other ≠ key) :
    (i.setTag key value).tags other = i.tags other := by
  unfold Instance.setTag
  dsimp only
  rw [Function.update_of_ne h]

theorem missingTags_setTag (h : "backend".toList ∉ keys) (value : Text) :
    missingTags keys (i.setTag "backend".toList value) = missingTags keys i := by
  apply List.filter_congr
  intro key hkey
  have hne : key ≠ "backend".toList := fun heq => h (heq ▸ hkey)
  rw [setTag_other hne]

theorem backendName_setTag (h : "backend".toList ∉ prefixes) (value : Text) :
    backendName prefixes (i.setTag "backend".toList value) = backendName prefixes i := by
  have hname : "AppName".toList ≠ "backend".toList := by decide
  have htag : ∀ {key : Text}, key ≠ "backend".toList →
      (i.setTag "backend".toList value).tag key = i.tag key := by
    intro key hne
    rw [Instance.tag, Instance.tag, setTag_other hne]
  unfold backendName
  rw [htag hname]
  congr 1
  induction prefixes with
  | nil => rfl
  | cons key prefixes ih =>
    have hne : key ≠ "backend".toList := fun heq => h (heq ▸ List.mem_cons_self)
    rw [List.flatMap_cons, List.flatMap_cons, htag hne,
      ih fun hmem => h (List.mem_cons_of_mem _ hmem)]

theorem setTag_setTag (key value : Text) : (i.setTag key value).setTag key value =
    i.setTag key value := by
  unfold Instance.setTag
  dsimp only
  rw [Function.update_idem]

/-- An instance is treated the same when it has been treated before. -/
theorem include_again (h : Unread keys prefixes) (i : Instance) :
    include? keys prefixes ((include? keys prefixes i).getD i) = include? keys prefixes i := by
  by_cases hkeys : missingTags keys i = []
  · have hfirst : include? keys prefixes i =
        some (i.setTag "backend".toList (backendName prefixes i)) := if_pos hkeys
    have hmissing := missingTags_setTag (i := i) h.key (backendName prefixes i)
    rw [hfirst, Option.getD_some, include?, hmissing, if_pos hkeys,
      backendName_setTag h.prefixes, setTag_setTag]
  · have hfirst : include? keys prefixes i = none := if_neg hkeys
    rw [hfirst, Option.getD_none, hfirst]

end Same

/-! ## Texts -/

section Texts

variable {t : Template} {keys keys' : List Text} {instances : List Instance}

/-- What a new process makes of some instances. -/
def content (t : Template) (instances : List Instance) : Option Text :=
  (generateHaproxyConfig t ⟨requiredKeys, instances⟩).map Prod.fst

/-- A text is known by the instances that are included. -/
theorem text_of_included {instances' : List Instance}
    (h : instances.filterMap (include? (keys ++ t.prefixes.getD []) (t.prefixes.getD [])) =
      instances'.filterMap (include? (keys' ++ t.prefixes.getD []) (t.prefixes.getD []))) :
    (generateHaproxyConfig t ⟨keys, instances⟩).map Prod.fst =
      (generateHaproxyConfig t ⟨keys', instances'⟩).map Prod.fst := by
  unfold generateHaproxyConfig collect aclsText generate backendText
  simp only [h, Option.map_map]
  rfl

theorem generate_same (h : SameKeys (keys ++ t.prefixes.getD []) (keys' ++ t.prefixes.getD []))
    (instances : List Instance) :
    (generateHaproxyConfig t ⟨keys, instances⟩).map Prod.fst =
      (generateHaproxyConfig t ⟨keys', instances⟩).map Prod.fst := by
  have hinclude := funext (h.include (t.prefixes.getD []))
  apply text_of_included
  rw [hinclude]

/-- The keys that are asked for when a run has called `get_acls` once or more. -/
theorem sameKeys_again (keys prefixes : List Text) :
    SameKeys (keys ++ prefixes ++ prefixes) (keys ++ prefixes) := by
  intro key
  simp only [List.mem_append, or_assoc, or_self]

/-- What a text leaves behind. -/
theorem generate_process {p p' : Process} {text : Text}
    (h : generateHaproxyConfig t p = some (text, p')) :
    p' = ⟨p.keys ++ t.prefixes.getD [],
      tagged (p.keys ++ t.prefixes.getD []) (t.prefixes.getD []) p.instances⟩ := by
  unfold generateHaproxyConfig at h
  obtain ⟨backends, -, heq⟩ := Option.map_eq_some_iff.mp h
  injection heq with _ hp
  exact hp.symm

theorem generate_again (h : Unread (keys ++ t.prefixes.getD []) (t.prefixes.getD []))
    {text : Text} {p : Process}
    (hgenerate : generateHaproxyConfig t ⟨keys, instances⟩ = some (text, p)) :
    (generateHaproxyConfig t p).map Prod.fst = some text := by
  have htext : (generateHaproxyConfig t ⟨keys, instances⟩).map Prod.fst = some text := by
    rw [hgenerate]
    rfl
  have hp := generate_process hgenerate
  have hinclude := funext ((sameKeys_again keys (t.prefixes.getD [])).include (t.prefixes.getD []))
  rw [hp, ← htext]
  apply text_of_included
  rw [hinclude, tagged, List.filterMap_map]
  apply List.filterMap_congr
  intro i _
  exact include_again h i

end Texts

/-! ## Runs -/

/-- `while True: main(args)`, for the instances of each turn. -/
def mainLoop (t : Template) : List Text → Option Text → List (List Instance) →
    Option (List Outcome)
  | _, _, [] => some []
  | keys, file, instances :: fetched => do
      let (outcome, keys) ← main t keys file instances
      let outcomes ← mainLoop t keys outcome.file fetched
      some (outcome :: outcomes)

/-- What should come of it. -/
def outcomes : Option Text → List Text → List Outcome
  | _, [] => []
  | file, text :: texts => ⟨some text, some text ≠ file⟩ :: outcomes (some text) texts

theorem content_ne_nil {t : Template} {p : Process} {text : Text}
    (h : (generateHaproxyConfig t p).map Prod.fst = some text) : text ≠ [] := by
  unfold generateHaproxyConfig at h
  rw [Option.map_map] at h
  obtain ⟨backends, -, heq⟩ := Option.map_eq_some_iff.mp h
  rw [← heq]
  simp [aclsText]

/-- One turn, with whatever keys the class has by then. -/
theorem main_eq {t : Template} {keys : List Text}
    (hkeys : SameKeys (keys ++ t.prefixes.getD []) (requiredKeys ++ t.prefixes.getD []))
    (h : Unread (requiredKeys ++ t.prefixes.getD []) (t.prefixes.getD []))
    {instances : List Instance} {text : Text} (htext : content t instances = some text)
    (file : Option Text) : ∃ keys', main t keys file instances =
        some (⟨some text, some text ≠ file⟩, keys') ∧
      SameKeys (keys' ++ t.prefixes.getD []) (requiredKeys ++ t.prefixes.getD []) := by
  have hunread : Unread (keys ++ t.prefixes.getD []) (t.prefixes.getD []) :=
    ⟨fun hmem => h.key ((hkeys _).mp hmem), h.prefixes⟩
  have hfirst := generate_same hkeys instances
  rw [← content, htext] at hfirst
  obtain ⟨⟨first, p⟩, hgenerate, heq⟩ := Option.map_eq_some_iff.mp hfirst
  dsimp only at heq
  subst heq
  have hp : p.keys = keys ++ t.prefixes.getD [] := by rw [generate_process hgenerate]
  by_cases hfile : some first = file
  · refine ⟨p.keys, ?_, ?_⟩
    · simp [main, hgenerate, hfile]
    · rw [hp]
      intro key
      rw [sameKeys_again, hkeys]
  · have hsecond := generate_again hunread hgenerate
    obtain ⟨⟨second, p'⟩, hagain, heq⟩ := Option.map_eq_some_iff.mp hsecond
    dsimp only at heq
    subst heq
    have hp' : p'.keys = p.keys ++ t.prefixes.getD [] := by rw [generate_process hagain]
    refine ⟨p'.keys, ?_, ?_⟩
    · simp [main, hgenerate, hfile, hagain, written, content_ne_nil hsecond]
    · rw [hp', hp]
      intro key
      rw [sameKeys_again, sameKeys_again, hkeys]

/-- **The file follows the instances.** -/
theorem file_follows (t : Template) (hunread : "backend".toList ∉ t.prefixes.getD [])
    (file : Option Text) {fetched : List (List Instance)} {texts : List Text}
    (htexts : fetched.mapM (content t) = some texts) :
    mainLoop t requiredKeys file fetched = some (outcomes file texts) := by
  have h : Unread (requiredKeys ++ t.prefixes.getD []) (t.prefixes.getD []) := by
    refine ⟨?_, hunread⟩
    intro hmem
    rcases List.mem_append.mp hmem with hmem | hmem
    · exact absurd hmem (by decide)
    · exact hunread hmem
  have hrun : ∀ {keys : List Text},
      SameKeys (keys ++ t.prefixes.getD []) (requiredKeys ++ t.prefixes.getD []) →
      mainLoop t keys file fetched = some (outcomes file texts) := by
    induction fetched generalizing file texts with
    | nil =>
      intro keys _
      injection htexts with htexts
      rw [← htexts]
      rfl
    | cons instances fetched ih =>
      intro keys hkeys
      rw [List.mapM_cons] at htexts
      obtain ⟨text, htext, hrest⟩ := Option.bind_eq_some_iff.mp htexts
      obtain ⟨rest, hmap, heq⟩ := Option.bind_eq_some_iff.mp hrest
      injection heq with heq
      obtain ⟨keys', hmain, hkeys'⟩ := main_eq hkeys h htext file
      rw [mainLoop, hmain, ← heq]
      have hloop := ih (some text) hmap hkeys'
      simp only [Option.bind_eq_bind, Option.bind_some, hloop]
      rfl
  exact hrun fun _ => Iff.rfl

/-! ### A shop -/

def shop : Instance := ⟨"i-1".toList, "ip-10.internal".toList, fun key =>
  if key = "AppName".toList then some "Shop".toList
  else if key = "AppPort".toList then some "8080".toList else none⟩

def shopTemplate (templateName : Text) : Template where
  above := Text.unlines ["frontend www".toList]
  aclsIndent := 4
  domain := "example.com".toList
  prefixes := none
  between := '\n' :: Text.unlines ["frontend other".toList]
  templateName := templateName
  backendIndent := 4
  cookie := true
  below := '\n' :: Text.unlines []

theorem file_follows_shop : ∃ text text' : Text,
    mainLoop (shopTemplate "default".toList) requiredKeys none [[shop], [shop], []] =
      some [⟨some text, true⟩, ⟨some text, false⟩, ⟨some text', some text' ≠ some text⟩] := by
  have hshop : ∃ text, content (shopTemplate "default".toList) [shop] = some text := ⟨_, rfl⟩
  have hnobody : ∃ text, content (shopTemplate "default".toList) [] = some text := ⟨_, rfl⟩
  obtain ⟨text, hshop⟩ := hshop
  obtain ⟨text', hnobody⟩ := hnobody
  have htexts : [[shop], [shop], []].mapM (content (shopTemplate "default".toList)) =
      some [text, text, text'] := by
    simp only [List.mapM_cons, List.mapM_nil, hshop, hnobody]
    rfl
  have hloop := file_follows (shopTemplate "default".toList) List.not_mem_nil none htexts
  refine ⟨text, text', hloop.trans ?_⟩
  simp [outcomes]

end Haproxy
end TdsAdmin
