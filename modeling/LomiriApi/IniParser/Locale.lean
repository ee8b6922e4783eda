import LomiriApi.IniParser.Setters
import Mathlib.Data.List.Basic

/-!
# Localized values

`set_locale_string(group, key, value, locale)` stores the value under the key
`key[locale]`, also if the locale is empty. The get methods pass NULL for an empty
locale; then GLib tries the languages of the process in turn and the plain key at
last, and never looks under `key[]`. So what is set with the default locale is not
what is read with it: `IniParser.localeRoundTrip_iff` is the exact condition.

- `ValueFunctions.Localized`, `LocaleLaws`: what GLib is assumed to do.
- `IniParser.LocaleRoundTrip`: a value is set and read back with the same locale.
-/

namespace LomiriApi

open ListKeyFile (localeKey)

/-- What is found without a locale: the value under `key[l]` for the first language `l`
that has one, or else the value under the plain key. An empty language is skipped, so
`key[]` is never tried. -/
def translated {γ : Type} (find : Text → Option γ) (languages : List Text) (key : Text) :
    Option γ :=
  ((languages.filter (· ≠ [])).findSome? fun l => find (localeKey key l)).or (find key)

section Laws

variable {K D F : Type} (G : GKeyFile K D F)

/-- A localized setter and getter, in terms of the plain ones. `languages` is the process's
list of languages, which comes from the environment. -/
structure ValueFunctions.Localized {α β γ : Type} (fns : ValueFunctions K α β)
    (convert : β → Option γ) (languages : List Text) (set : K → Text → Text → Text → α → K)
    (get : K → Text → Text → Option Text → β × Option GError) : Prop where
  /-- a value is stored under `key[locale]` -/
  set_eq : ∀ k group key locale a,
    set k group key locale a = fns.set k group (localeKey key locale) a
  /-- with a locale, `key[locale]` is looked up first -/
  get_some : ∀ k group key locale v,
    returned convert (fns.get k group (localeKey key locale)) = some v →
      returned convert (get k group key (some locale)) = some v
  /-- with NULL, the languages are tried in turn, and then the plain key -/
  get_none : ∀ k group key, returned convert (get k group key none) =
    translated (fun name => returned convert (fns.get k group name)) languages key

structure LocaleLaws (languages : List Text) : Prop where
  string : G.string.Localized id languages G.setLocaleString G.getLocaleString
  stringList :
    G.stringList.Localized CArray.elements languages G.setLocaleStringList G.getLocaleStringList

end Laws

/-- A value that can be set with a locale. -/
inductive LocaleValue where
  | string (s : Text)
  | stringArray (l : List Text)
deriving DecidableEq, Repr

/-- The value without its locale. -/
def LocaleValue.iniValue : LocaleValue → IniValue
  | string s => .string s
  | stringArray l => .stringArray l

namespace IniParser

variable {K D F : Type} (G : GKeyFile K D F)

/-- The localized set method for a value. -/
def setLocaleMethod (p : IniParser K) (group key locale : Text) :
    LocaleValue → IniParser K × CallResult Unit
  | .string s => p.setLocaleString G group key s locale
  | .stringArray l => p.setLocaleStringArray G group key l locale

/-- The matching get method returns exactly the value. -/
def ReadsLocale (p : IniParser K) (group key locale : Text) : LocaleValue → Prop
  | .string s => p.getLocaleString G group key locale = .ok s
  | .stringArray l => p.getLocaleStringArray G group key locale = .ok l

/-- The set method returns, and then the get method returns the value. The key may have had
other translations before. -/
def LocaleRoundTrip (p : IniParser K) (group key locale : Text) (v : LocaleValue) : Prop :=
  (p.setLocaleMethod G group key locale v).2 = .ok () ∧
    (p.setLocaleMethod G group key locale v).1.ReadsLocale G group key locale v

/-- The value is what GLib finds in the languages of the process. With an empty locale this
is all that can be read, whatever has been set. -/
def IsTranslation (languages : List Text) (p : IniParser K) (group key : Text) :
    LocaleValue → Prop
  | .string s =>
    translated (fun name => (G.reading p.k (cStr group) name).string) languages (cStr key) = some s
  | .stringArray l =>
    translated (fun name => (G.reading p.k (cStr group) name).stringList) languages (cStr key) =
      some l

/-- The value is what GLib finds for the locale. -/
def IsLocalized (p : IniParser K) (group key locale : Text) : LocaleValue → Prop
  | .string s =>
    returned id (G.getLocaleString p.k (cStr group) (cStr key) (some (cStr locale))) = some s
  | .stringArray l =>
    returned CArray.elements
      (G.getLocaleStringList p.k (cStr group) (cStr key) (some (cStr locale))) = some l

/-- What is needed for a round trip. With a locale: GLib takes the name `key[locale]`
and gets all of the value. Without one, or if the name is not taken: the value is
what GLib finds already. -/
def LocaleStorable (languages : List Text) (p : IniParser K) (group key locale : Text)
    (v : LocaleValue) : Prop :=
  if locale = [] then v.iniValue.Passed ∧ p.IsTranslation G languages group key v
  else
    G.ValidNames (cStr group) (localeKey (cStr key) (cStr locale)) ∧ v.iniValue.Fits ∨
      ¬ G.ValidNames (cStr group) (localeKey (cStr key) (cStr locale)) ∧ v.iniValue.Passed ∧
        p.IsLocalized G group key locale v

end IniParser

/-! ## Names -/

theorem localeKey_injective (key : Text) : Function.Injective (localeKey key) := by
  intro l l' h
  exact List.append_cancel_left (List.append_cancel_right h)

theorem ne_localeKey (key locale : Text) : key ≠ localeKey key locale := by
  intro h
  have hlen := congrArg List.length h
  simp [localeKey] at hlen

theorem findSome?_congr {α β : Type} {f g : α → Option β} {l : List α}
    (h : ∀ a ∈ l, f a = g a) : l.findSome? f = l.findSome? g := by
  induction l with
  | nil => rfl
  | cons a l ih =>
    have hrest := ih fun b hb => h b (List.mem_cons_of_mem a hb)
    rw [List.findSome?_cons, List.findSome?_cons, h a List.mem_cons_self, hrest]

/-- What is stored under `key[]` is never found without a locale. This is where setting and
getting part. -/
theorem translated_congr {γ : Type} {find find' : Text → Option γ} {key : Text}
    (h : ∀ name, name ≠ localeKey key [] → find name = find' name) (languages : List Text) :
    translated find languages key = translated find' languages key := by
  have hlanguages : ((languages.filter (· ≠ [])).findSome? fun l => find (localeKey key l))
      = (languages.filter (· ≠ [])).findSome? fun l => find' (localeKey key l) := by
    refine findSome?_congr fun l hl => h _ fun heq => ?_
    have hne : l ≠ [] := by simpa using (List.mem_filter.mp hl).2
    exact hne (localeKey_injective key heq)
  rw [translated, translated, hlanguages, h key (ne_localeKey key [])]

/-! ## One localized value -/

section Localized

variable {K D F α β γ : Type} {G : GKeyFile K D F} {fns : ValueFunctions K α β}
  {convert : β → Option γ} {WellFormed : α → Prop} {value : α → Option γ}
  {languages : List Text} {set : K → Text → Text → Text → α → K}
  {get : K → Text → Text → Option Text → β × Option GError}

/-- Without a locale, the setter makes no difference to the getter. The one writes `key[]`,
and the other looks everywhere else. -/
theorem ValueFunctions.Localized.get_set_empty (loc : fns.Localized convert languages set get)
    (laws : fns.Lawful G convert WellFormed value) {field : Reading F → Option γ}
    (hfield : ∀ k group key, field (G.reading k group key) = returned convert (fns.get k group key))
    (k : K) (group key : Text) (a : α) :
    returned convert (get (set k group key [] a) group key none) =
      translated (fun name => field (G.reading k group name)) languages key := by
  rw [loc.get_none, loc.set_eq]
  refine translated_congr (fun name hname => ?_) languages
  have hother : (group, name) ≠ (group, localeKey key []) := fun h => hname (Prod.mk.inj h).2
  rw [← hfield, laws.reading_set _ _ _ _ _ _ hother]

/-- With a locale, the getter sees what the setter has stored. -/
theorem ValueFunctions.Localized.get_set_locale (loc : fns.Localized convert languages set get)
    (laws : fns.Lawful G convert WellFormed value) {a : α} {w : γ} (ha : WellFormed a)
    (hw : value a = some w) (k : K) (group key locale : Text) (v : γ) :
    returned convert (get (set k group key locale a) group key (some locale)) = some v ↔
      G.ValidNames group (localeKey key locale) ∧ w = v ∨
        ¬ G.ValidNames group (localeKey key locale) ∧
          returned convert (get k group key (some locale)) = some v := by
  by_cases hvalid : G.ValidNames group (localeKey key locale)
  · have hstored := laws.get_set k group (localeKey key locale) a w hvalid ha hw
    rw [loc.get_some _ _ _ _ w (by rw [loc.set_eq, hstored])]
    simp [hvalid]
  · rw [loc.set_eq, laws.set_invalid k group _ a hvalid]
    simp [hvalid]

end Localized

/-! ## The methods -/

namespace IniParser

variable {K D F : Type} {G : GKeyFile K D F} {languages : List Text}

/-- One localized getter after its setter, for an argument that GLib gets. -/
theorem getValue_set_iff {α β γ : Type} {fns : ValueFunctions K α β} {convert : β → Option γ}
    {WellFormed : α → Prop} {value : α → Option γ} {set : K → Text → Text → Text → α → K}
    {get : K → Text → Text → Option Text → β × Option GError}
    (laws : fns.Lawful G convert WellFormed value) (loc : fns.Localized convert languages set get)
    (field : Reading F → Option γ)
    (hfield : ∀ k group key, field (G.reading k group key) = returned convert (fns.get k group key))
    (p : IniParser K) (pre group key locale : Text) {a : α} {w : γ} (ha : WellFormed a)
    (hw : value a = some w) (v : γ) :
    (let p' : IniParser K :=
      { p with k := set p.k (cStr group) (cStr key) (cStr locale) a, dirty := true }
    p'.getValue convert pre group (get p'.k (cStr group) (cStr key)
      (if locale = [] then none else some (cStr locale))) = .ok v) ↔
    if locale = [] then
      translated (fun name => field (G.reading p.k (cStr group) name)) languages (cStr key) = some v
    else
      G.ValidNames (cStr group) (localeKey (cStr key) (cStr locale)) ∧ w = v ∨
        ¬ G.ValidNames (cStr group) (localeKey (cStr key) (cStr locale)) ∧
          returned convert (get p.k (cStr group) (cStr key) (some (cStr locale))) = some v := by
  rw [getValue_eq_ok]
  by_cases hlocale : locale = []
  · subst hlocale
    rw [if_pos rfl, if_pos rfl]
    show returned convert (get (set p.k (cStr group) (cStr key) [] a) _ _ none) = some v ↔ _
    rw [loc.get_set_empty laws hfield]
  · rw [if_neg hlocale, if_neg hlocale]
    exact loc.get_set_locale laws ha hw _ _ _ _ v

/-- **A localized value is read back**, exactly under the condition `LocaleStorable`:
for every key file, all names, every locale and every list of languages. -/
theorem localeRoundTrip_iff (laws : KeyFileLaws G) (locales : LocaleLaws G languages)
    (p : IniParser K) (group key locale : Text) {v : LocaleValue} (hv : v.iniValue.NulFree) :
    p.LocaleRoundTrip G group key locale v ↔ p.LocaleStorable G languages group key locale v := by
  cases v with
  | string s =>
    have hget := getValue_set_iff laws.string locales.string Reading.string
      (fun _ _ _ => rfl) p "Could not get localized string value" group key locale hv rfl s
    simp only [LocaleRoundTrip, setLocaleMethod, setLocaleString, cStr_of_nulFree hv]
    refine (and_iff_right rfl).trans (hget.trans ?_)
    simp only [LocaleStorable, LocaleValue.iniValue, IniValue.Passed, IniValue.Fits, true_and,
      and_true]
    exact Iff.rfl
  | stringArray l =>
    have htake : ∀ s ∈ l.take (l.length % 2 ^ 32), NulFree s :=
      fun s hs => hv s (List.mem_of_mem_take hs)
    simp only [LocaleRoundTrip, setLocaleMethod, setLocaleStringArray, newStringList_of_nulFree hv]
    by_cases hpassed : l.length % 2 ^ 32 < 2 ^ 31 - 1
    · have hget := getValue_set_iff laws.stringList locales.stringList
        Reading.stringList (fun _ _ _ => rfl) p "Could not get localized string array"
        group key locale (a := some (l.take (l.length % 2 ^ 32)))
        (fun ss hss => by rwa [← Option.mem_some.mp hss]) rfl l
      rw [if_pos hpassed]
      refine (and_iff_right rfl).trans (hget.trans ?_)
      simp only [LocaleStorable, LocaleValue.iniValue, IniValue.Passed, IniValue.Fits, hpassed,
        true_and, take_mod_eq_iff_of_passed hpassed]
      exact Iff.rfl
    · -- the vector is too long for the array to be allocated
      have hfits : ¬ l.length < 2 ^ 31 - 1 := by omega
      rw [if_neg hpassed]
      simp only [LocaleStorable, LocaleValue.iniValue, IniValue.Passed, IniValue.Fits, hpassed,
        hfits, false_and, and_false, or_self, ite_self, iff_false]
      rintro ⟨hok, -⟩
      cases hok

end IniParser

/-! ## On a list -/

/-- The localized functions for values of one type, where the process has no
languages. -/
theorem typed_localized {α β γ : Type} {toValue : α → Option IniValue}
    {fromValue : IniValue → Option β} {default : β} {convert : β → Option γ} :
    (ListKeyFile.typed toValue fromValue default).Localized convert []
      (fun kf group key locale =>
        (ListKeyFile.typed toValue fromValue default).set kf group (localeKey key locale))
      (fun kf group key locale =>
        ListKeyFile.getTyped fromValue default (kf.findLocale group key locale)) where
  set_eq _ _ _ _ _ := rfl
  get_some kf group key locale v h := by
    simp only [ListKeyFile.typed] at h
    cases hfind : ListKeyFile.find kf group (localeKey key locale) with
    | none =>
      rw [hfind] at h
      cases h
    | some w =>
      rw [hfind] at h
      simpa only [ListKeyFile.findLocale, Option.bind_some, hfind, Option.some_or] using h
  get_none _ _ _ := rfl

theorem string_localized : ListKeyFile.string.Localized id [] listKeyFile.setLocaleString
    listKeyFile.getLocaleString := typed_localized

theorem stringList_localized : ListKeyFile.stringList.Localized CArray.elements []
    listKeyFile.setLocaleStringList listKeyFile.getLocaleStringList := typed_localized

theorem listKeyFile_localeLaws : LocaleLaws listKeyFile [] :=
  ⟨string_localized, stringList_localized⟩

namespace IniParser

theorem localeRoundTrip_iff_oneList :
    oneList.LocaleRoundTrip listKeyFile "first" "list" "de_AT" (.stringArray ["one", "two"]) := by
  refine (localeRoundTrip_iff listKeyFile_laws listKeyFile_localeLaws oneList "first" "list" "de_AT"
    (v := .stringArray ["one", "two"]) ?_).mpr ?_
  · show ∀ s ∈ ([("one" : Text), "two"]), NulFree s
    decide
  · rw [LocaleStorable, if_neg (by decide)]
    exact .inl ⟨by decide, show 2 < 2 ^ 31 - 1 by decide⟩

/-- A locale of letters, digits and the marks that separate its parts. -/
def IsLocaleName (locale : Text) : Prop :=
  ∀ c ∈ locale, c.isAlphanum = true ∨ c ∈ ['-', '_', '.', '@']

theorem localeRoundTrip_fails_empty :
    KeyFileLaws listKeyFile ∧ LocaleLaws listKeyFile [] ∧
      ¬ ∀ (p : IniParser ListKeyFile) (group key locale : Text) (v : LocaleValue),
        listKeyFile.ValidNames (cStr group) (cStr key) → IsLocaleName locale →
          v.iniValue.NulFree → p.LocaleRoundTrip listKeyFile group key locale v := by
  refine ⟨listKeyFile_laws, listKeyFile_localeLaws, fun hall => ?_⟩
  -- the value is stored under `name[]`, and `name` is looked up
  have hnul : (LocaleValue.string "value").iniValue.NulFree := show NulFree _ by decide
  have hround := hall oneList "first" "name" [] (.string "value") (by decide)
    (fun c hc => by cases hc) hnul
  have hread : getLocaleString listKeyFile
      (oneList.setLocaleMethod listKeyFile "first" "name" [] (.string "value")).1
      "first" "name" [] = .ok "value" := hround.2
  exact absurd hread (by decide)

end IniParser

end LomiriApi
