/-
# SstTransports.Core.Reachable — whether `fi_getinfo` reaches the provider.

`fi_getinfo` skips an entry of the registry that has no provider.  The entry `sstmac` stays that way:
no provider constant of the build is `sstmac_prov`, and `fi_prov_ini` of its shared library returns
null, so that nothing is ever registered.  `sstmac_not_reached` says what follows.

`reached_iff` says that in `fi_ini` and `fi_getinfo` nothing else is missing.  If only one of the shared
libraries returned `sstmac_prov`, its entries would come through the filters, the layering and the
version gate, in order and with the right names.  That `fi_prov_ini` is found and called is assumed
here: the provider's has C++ linkage, so that `dlsym` does not find it under that name, and nothing is
registered for that reason either.
-/
import SstTransports.Fabric.Hints
import SstTransports.Core.Registry

namespace SstTransports.Core

open SstTransports.Fabric

/-! ## §1 — the registry after `fi_ini` -/

/-- The registry with the provider in its place. -/
def registered : List OfiProv :=
  ofiOrderedProvsInit.modify 0 fun e => { e with provider := some sstmacProv }

variable (filter : FiFilter)

/-- What registering a list of providers makes of a registry. -/
def registerAll (registry : List OfiProv) (providers : List (Option FiProvider)) : List OfiProv :=
  providers.foldl (fun r p => (ofiRegisterProvider filter r p).2) registry

theorem registerAll_registered {providers : List (Option FiProvider)}
    (h : ∀ p ∈ providers, p = none ∨ p = some sstmacProv) :
    registerAll filter registered providers = registered := by
  induction providers with
  | nil => rfl
  | cons p providers ih =>
      -- a provider that is not newer than the one there is turned away
      have hp : (ofiRegisterProvider filter registered p).2 = registered := by
        rcases h p List.mem_cons_self with rfl | rfl
        · rfl
        · rfl
      rw [registerAll, List.foldl_cons, hp]
      exact ih fun q hq => h q (List.mem_cons_of_mem p hq)

/-- The provider is in the registry exactly if one of the registrations was its own. -/
theorem registerAll_ordered {providers : List (Option FiProvider)}
    (h : ∀ p ∈ providers, p = none ∨ p = some sstmacProv) :
    (some sstmacProv ∈ providers ∧
        registerAll filter ofiOrderedProvsInit providers = registered) ∨
      (some sstmacProv ∉ providers ∧
        registerAll filter ofiOrderedProvsInit providers = ofiOrderedProvsInit) := by
  induction providers with
  | nil => exact Or.inr ⟨by simp, rfl⟩
  | cons p providers ih =>
      have hrest : ∀ q ∈ providers, q = none ∨ q = some sstmacProv := fun q hq =>
        h q (List.mem_cons_of_mem p hq)
      rcases h p List.mem_cons_self with rfl | rfl
      · have hnone : registerAll filter ofiOrderedProvsInit (none :: providers) =
            registerAll filter ofiOrderedProvsInit providers := rfl
        rw [hnone]
        simpa using ih hrest
      · left
        exact ⟨List.mem_cons_self, registerAll_registered filter hrest⟩

theorem fiIni_registry (provider : Option CString) {libs : List (Option FiProvider)}
    (hlibs : ∀ p ∈ libs, p = none ∨ p = some sstmacProv) :
    (some sstmacProv ∈ libs ∧ (fiIni provider libs).registry = registered) ∨
      (some sstmacProv ∉ libs ∧ (fiIni provider libs).registry = ofiOrderedProvsInit) := by
  have hall : ∀ p ∈ libs ++ List.replicate 18 none, p = none ∨ p = some sstmacProv := by
    intro p hp
    rcases List.mem_append.mp hp with hp | hp
    · exact hlibs p hp
    · exact Or.inl (List.eq_of_mem_replicate hp)
  have hmem : some sstmacProv ∈ libs ++ List.replicate 18 none ↔ some sstmacProv ∈ libs := by
    simp
  have hcases := registerAll_ordered (ofiCreateFilter provider) hall
  rw [hmem] at hcases
  exact hcases

/-! ## §2 — the calls the provider is to be reached by -/

def sstmacName : CString := "sstmac".toList

/-- Both filters let the name through, the version is not newer than the library, not only the
provider attributes are asked for, and the hints name no other provider. -/
structure Addressed (provider : Option CString) (version : BitVec 32) (flags : BitVec 64)
    (hints : Option Hints) : Prop where
  init : ofiApplyProvInitFilter (ofiCreateFilter provider) sstmacName = false
  post : ofiApplyProvPostFilter (ofiCreateFilter provider) sstmacName = false
  version : fiVersionLt (fiVersion 1 9) version = false
  flags : flags &&& fiProvAttrOnly = 0
  name : ∀ name, hintedProvName hints = some name → sameName name sstmacName = true

/-- An entry without what the library writes into it. -/
def anonymous (e : FiInfo) : FiInfo :=
  { e with fabricAttr := { e.fabricAttr with provName := none, provVersion := 0, apiVersion := 0 } }

/-- The call succeeds with the given entries, in their order, in the provider's name and for the
version asked for. -/
def Reached (version : BitVec 32) (entries : List FiInfo)
    (result : Except Fault (Int × List FiInfo)) : Prop :=
  ∃ list, result = .ok (0, list) ∧ list.map anonymous = entries.map anonymous ∧
    ∀ e ∈ list, e.fabricAttr.provName = some sstmacName ∧ e.fabricAttr.apiVersion = version

theorem sameName_comm (s t : CString) : sameName s t = sameName t s := by
  simp only [sameName, Bool.beq_comm]

/-- A name that differs from the provider's in case only has no character that means something. -/
theorem not_mem_of_sameName {name : CString} (h : sameName name sstmacName = true) {c : Char}
    (hc : c.toLower ∉ sstmacName) : c ∉ name := by
  intro hmem
  have hlower : name.map Char.toLower = sstmacName := by
    have heq := beq_iff_eq.mp h
    rw [heq]
    decide
  exact hc (hlower ▸ List.mem_map_of_mem hmem)

/-- The hints without a provider name, or with this one, ask for at most one layer. -/
theorem splitOn_name {hints : Option Hints}
    (h : ∀ name, hintedProvName hints = some name → sameName name sstmacName = true) :
    (hintedProvName hints).elim [] (·.splitOn ';') = [] ∨
      ∃ name, (hintedProvName hints).elim [] (·.splitOn ';') = [name] ∧
        sameName name sstmacName = true := by
  cases hname : hintedProvName hints with
  | none => exact Or.inl rfl
  | some name =>
      right
      have hsame := h name hname
      have hdelim : ';' ∉ name := not_mem_of_sameName hsame (by decide)
      refine ⟨name, ?_, hsame⟩
      apply List.splitOnP_eq_singleton
      intro c hc
      simp only [beq_eq_false_iff_ne]
      rintro rfl
      exact hdelim hc

theorem ofiLayeringOk_sstmac (flags : BitVec 64) {provVec : List CString}
    (h : provVec = [] ∨ ∃ name, provVec = [name] ∧ sameName name sstmacName = true) :
    ofiLayeringOk sstmacProv provVec flags = true := by
  have hcore : (sstmacProv.type != .core) = false := by decide
  have hutil : (sstmacProv.type == .util) = false := by decide
  rcases h with rfl | ⟨name, rfl, hsame⟩
  · simp only [ofiLayeringOk, hcore, List.reverse_nil, List.takeWhile_nil, List.dropWhile_nil,
      List.any_nil, List.isEmpty_nil, Bool.false_or, Bool.true_and]
    have hsockets : sameName (sstmacProv.name.getD []) "sockets".toList = false := by decide
    simp only [hsockets, Bool.and_false]
    rfl
  · have hcaret : '^' ∉ name := not_mem_of_sameName hsame (by decide)
    have hhead : (name.head? == some '^') = false := by
      cases name with
      | nil => rfl
      | cons c name =>
          simp only [List.head?_cons, beq_eq_false_iff_ne, ne_eq, Option.some.injEq]
          rintro rfl
          exact hcaret List.mem_cons_self
    rw [sameName_comm] at hsame
    have hname : sstmacProv.name.getD [] = sstmacName := rfl
    simp [ofiLayeringOk, hcore, hutil, hhead, hname, hsame]

/-! ## §3 — the loop -/

section Loop

variable (version : BitVec 32) (node service : Option CString) (flags : BitVec 64)
  (hints : Option Hints) (provVec : List CString)

/-- Without a provider in the registry the list stays empty. -/
theorem rounds_ordered :
    ofiOrderedProvsInit.foldlM (getinfoRound version node service flags hints provVec) [] =
      .ok [] := rfl

/-- With the provider in its place the list is what it returns, in the provider's name. -/
theorem rounds_registered {entries : List FiInfo}
    (hlayer : ofiLayeringOk sstmacProv provVec flags = true)
    (hversion : fiVersionLt (fiVersion 1 9) version = false)
    (hget : sstmacGetinfo version hints = .ok (0, entries)) :
    registered.foldlM (getinfoRound version node service flags hints provVec) [] =
      .ok (entries.map (ofiSetProvAttr version sstmacProv)) := by
  have hfirst : getinfoRound version node service flags hints provVec []
      { provName := sstmacName, provider := some sstmacProv } =
      .ok (entries.map (ofiSetProvAttr version sstmacProv)) := by
    have hgate : fiVersionLt sstmacProv.fiVersion version = false := hversion
    have hentry : sstmacProv.getinfo = some fun version _ _ _ hints => sstmacGetinfo version hints :=
      rfl
    simp only [getinfoRound, hentry, hlayer, hgate, hget, Bool.not_true, Bool.false_and,
      Bool.or_false]
    rfl
  have hfold : registered.foldlM (getinfoRound version node service flags hints provVec) [] =
      (getinfoRound version node service flags hints provVec []
        { provName := sstmacName, provider := some sstmacProv }) >>= fun info => .ok info := rfl
  rw [hfold, hfirst]
  rfl

end Loop

/-! ## §4 — the result -/

section Result

variable {provider : Option CString} {version : BitVec 32} {flags : BitVec 64}
  {hints : Option Hints} {entries : List FiInfo} {libs : List (Option FiProvider)}
  (node service : Option CString)

/-- Past the gates `fi_getinfo` is its loop and the filter. -/
theorem fiGetinfo_eq (h : Addressed provider version flags hints) (list : List FiInfo)
    (hrounds : (fiIni provider libs).registry.foldlM (getinfoRound version node service flags hints
      ((hintedProvName hints).elim [] (·.splitOn ';'))) [] = .ok list)
    (hnames : ∀ e ∈ list, e.fabricAttr.provName = some sstmacName) :
    fiGetinfo (fiIni provider libs) version node service flags hints =
      .ok (if list.isEmpty then -fiEnodata else 0, list) := by
  have hflags : flags ≠ fiProvAttrOnly := by
    rintro rfl
    exact absurd h.flags (by decide)
  -- every entry bears the name the filter lets through
  have hfilter : ofiFilterInfo (ofiCreateFilter provider) list = list := by
    unfold ofiFilterInfo
    split
    · rfl
    · rw [List.filter_eq_self]
      intro e he
      rw [hnames e he, Option.getD_some, h.post]
      rfl
  have hlib : (fiIni provider libs).filter = ofiCreateFilter provider := rfl
  simp only [fiGetinfo, h.version, hflags, hrounds, bind, Except.bind, hlib, hfilter, ite_self]
  rfl

theorem fiGetinfo_ordered (h : Addressed provider version flags hints)
    (hregistry : (fiIni provider libs).registry = ofiOrderedProvsInit) :
    fiGetinfo (fiIni provider libs) version node service flags hints = .ok (-fiEnodata, []) := by
  refine fiGetinfo_eq node service h [] ?_ (by simp)
  rw [hregistry]
  exact rounds_ordered version node service flags hints _

/-- What the library writes into an entry that names no provider. -/
theorem ofiSetProvAttr_sstmac (version : BitVec 32) {e : FiInfo} (he : e.fabricAttr.provName = none) :
    (ofiSetProvAttr version sstmacProv e).fabricAttr.provName = some sstmacName ∧
      (ofiSetProvAttr version sstmacProv e).fabricAttr.apiVersion = version ∧
      anonymous (ofiSetProvAttr version sstmacProv e) = anonymous e := by
  refine ⟨?_, rfl, rfl⟩
  simp only [ofiSetProvAttr, he, Option.elim_none]
  rfl

theorem reached_of_registered (h : Addressed provider version flags hints)
    (hget : sstmacGetinfo version hints = .ok (0, entries))
    (hregistry : (fiIni provider libs).registry = registered) :
    Reached version entries
      (fiGetinfo (fiIni provider libs) version node service flags hints) := by
  have hanonymous : ∀ e ∈ entries, e.fabricAttr.provName = none := by
    intro e he
    obtain ⟨epType, hmade⟩ := getinfo_mem hget he
    exact epGetinfo_provName hmade
  have hstamped : ∀ e ∈ entries.map (ofiSetProvAttr version sstmacProv),
      e.fabricAttr.provName = some sstmacName ∧ e.fabricAttr.apiVersion = version := by
    intro e' he'
    obtain ⟨e, he, rfl⟩ := List.mem_map.mp he'
    obtain ⟨hname, hversion, -⟩ := ofiSetProvAttr_sstmac version (hanonymous e he)
    exact ⟨hname, hversion⟩
  refine ⟨entries.map (ofiSetProvAttr version sstmacProv), ?_, ?_, hstamped⟩
  · have hne : (entries.map (ofiSetProvAttr version sstmacProv)).isEmpty = false := by
      simpa using getinfo_success_ne_nil hget
    have hrounds := rounds_registered version node service flags hints _
      (ofiLayeringOk_sstmac flags (splitOn_name h.name)) h.version hget
    rw [← hregistry] at hrounds
    rw [fiGetinfo_eq node service h _ hrounds fun e he => (hstamped e he).1, hne]
    rfl
  · rw [List.map_map]
    apply List.map_congr_left
    intro e he
    exact (ofiSetProvAttr_sstmac version (hanonymous e he)).2.2

/-- **What is missing.** With shared libraries whose `fi_prov_ini` is called and returns the provider or
nothing, the provider is reached exactly if one returns it. -/
theorem reached_iff (hlibs : ∀ p ∈ libs, p = none ∨ p = some sstmacProv)
    (h : Addressed provider version flags hints)
    (hget : sstmacGetinfo version hints = .ok (0, entries)) :
    Reached version entries (fiGetinfo (fiIni provider libs) version node service flags hints) ↔
      some sstmacProv ∈ libs := by
  rcases fiIni_registry provider hlibs with ⟨hmem, hregistry⟩ | ⟨hmem, hregistry⟩
  · exact iff_of_true (reached_of_registered node service h hget hregistry) hmem
  · refine iff_of_false ?_ hmem
    rintro ⟨list, hlist, -⟩
    rw [fiGetinfo_ordered node service h hregistry] at hlist
    cases hlist

end Result

/-- **The provider is not reached.** Whatever the filter, the version, the flags and the hints of a
call that is to reach it, and however many times its shared library is loaded, `fi_getinfo` has no
data. -/
theorem sstmac_not_reached (provider : Option CString) (version : BitVec 32)
    (node service : Option CString) (flags : BitVec 64) (hints : Option Hints)
    (entries : List FiInfo) (n : Nat) (h : Addressed provider version flags hints)
    (hget : sstmacGetinfo version hints = .ok (0, entries)) :
    ¬ Reached version entries
        (fiGetinfo (fiIni provider (List.replicate n fiProvIni)) version node service flags hints) ∧
      fiGetinfo (fiIni provider (List.replicate n fiProvIni)) version node service flags hints =
        .ok (-fiEnodata, []) := by
  have hlibs : ∀ p ∈ List.replicate n fiProvIni, p = none ∨ p = some sstmacProv := fun p hp =>
    Or.inl (List.eq_of_mem_replicate hp)
  have hnone : some sstmacProv ∉ List.replicate n fiProvIni := by
    intro hmem
    cases List.eq_of_mem_replicate hmem
  constructor
  · rw [reached_iff node service hlibs h hget]
    exact hnone
  · rcases fiIni_registry provider hlibs with ⟨hmem, -⟩ | ⟨-, hregistry⟩
    · exact absurd hmem hnone
    · exact fiGetinfo_ordered node service h hregistry

theorem sstmac_not_reached_rdm :
    Addressed none (fiVersion 1 9) 0 (some (sampleHints .rdm)) ∧
      ∃ entries, sstmacGetinfo (fiVersion 1 9) (some (sampleHints .rdm)) = .ok (0, entries) ∧
        ¬ Reached (fiVersion 1 9) entries
          (fiGetinfo (fiIni none [fiProvIni]) (fiVersion 1 9) none none 0
            (some (sampleHints .rdm))) := by
  have haddressed : Addressed none (fiVersion 1 9) 0 (some (sampleHints .rdm)) :=
    ⟨rfl, rfl, by decide, by decide, fun _ hname => by cases hname⟩
  refine ⟨haddressed, _, getinfo_complete (sampleComplete .rdm) (fiVersion 1 9), ?_⟩
  exact (sstmac_not_reached none (fiVersion 1 9) none none 0 (some (sampleHints .rdm)) _ 1 haddressed
    (getinfo_complete (sampleComplete .rdm) (fiVersion 1 9))).1

/-- With the filter `sstmac` and no hints the provider has entries to offer, and there is no data. -/
theorem getinfo_has_no_data :
    Addressed (some sstmacName) (fiVersion 1 9) 0 none ∧
      ∃ entries, sstmacGetinfo (fiVersion 1 9) none = .ok (0, entries) ∧
        fiGetinfo (fiIni (some sstmacName) [fiProvIni]) (fiVersion 1 9) none none 0 none =
          .ok (-fiEnodata, []) ∧
        ¬ Reached (fiVersion 1 9) entries
          (fiGetinfo (fiIni (some sstmacName) [fiProvIni]) (fiVersion 1 9) none none 0 none) := by
  refine ⟨⟨by decide, by decide, by decide, by decide, fun _ hname => by cases hname⟩, _, rfl, rfl,
    ?_⟩
  rintro ⟨list, hlist, -⟩
  cases hlist

end SstTransports.Core
