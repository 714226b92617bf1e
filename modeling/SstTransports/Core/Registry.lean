/-
# SstTransports.Core.Registry — the provider registry of the library, and `fi_getinfo`.

`fi_ini` makes the registry: entries for the names it knows, in the order in which providers are
reported, and then the registration of every provider it is given, by the shared libraries it finds
and by the provider constants of the build.  `fi_getinfo` goes through the registry, asks each provider
it may ask, and puts the lists together.

Logging and the hooks are left out; allocation does not fail.
-/
import SstTransports.Fabric.Info

namespace SstTransports.Core

open SstTransports.Fabric

/-! ## §1 — names and filters -/

def fiEalready : Int := 114
def fiProvAttrOnly : BitVec 64 := 1 <<< 54
def ofiGetinfoInternal : BitVec 64 := 1 <<< 58
def ofiCoreProvOnly : BitVec 64 := 1 <<< 59
def ofiGetinfoHidden : BitVec 64 := 1 <<< 60

/-- `!strcasecmp(s, t)` -/
def sameName (s t : CString) : Bool := s.map Char.toLower == t.map Char.toLower

/-- `!strncasecmp(s, t, strlen(s))` -/
def startsWith (s t : CString) : Bool := (s.map Char.toLower).isPrefixOf (t.map Char.toLower)

/-- `ofi_has_util_prefix` -/
def ofiHasUtilPrefix (name : CString) : Bool := startsWith "ofi_".toList name

/-- `struct fi_filter` -/
structure FiFilter where
  names : Option (List CString) := none
  negated : Bool := false
  deriving DecidableEq, Repr

/-- `ofi_create_filter`; `ofi_split_and_alloc` keeps empty pieces. -/
def ofiCreateFilter : Option CString → FiFilter
  | none => {}
  | some ('^' :: raw) => { names := some (raw.splitOn ','), negated := true }
  | some raw => { names := some (raw.splitOn ',') }

/-- `ofi_find_name(names, name) >= 0` -/
def ofiFindName (names : List CString) (name : CString) : Bool := names.any (sameName name)

/-- `ofi_find_layered_name(names, name) >= 0` -/
def ofiFindLayeredName (names : List CString) (name : CString) : Bool :=
  names.any fun n => startsWith name n && n[name.length]? == some ';'

/-- `ofi_find_core_name(names, name) >= 0` -/
def ofiFindCoreName (names : List CString) (name : CString) : Bool :=
  names.any fun n => startsWith n name && name[n.length]? == some ';'

/-- `ofi_apply_prov_init_filter`: whether the name is filtered out. -/
def ofiApplyProvInitFilter (filter : FiFilter) (name : CString) : Bool :=
  match filter.names with
  | none => false
  | some names =>
    if ofiFindName names name then filter.negated
    else if filter.negated then false
    else !ofiFindLayeredName names name

/-- `ofi_apply_prov_post_filter` -/
def ofiApplyProvPostFilter (filter : FiFilter) (name : CString) : Bool :=
  match filter.names with
  | none => false
  | some names =>
    if ofiFindName names name || ofiFindCoreName names name then filter.negated
    else !filter.negated

/-! ## §2 — the registry -/

/-- `getinfo` of a provider: version, node, service, flags, hints. -/
abbrev Getinfo :=
  BitVec 32 → Option CString → Option CString → BitVec 64 → Option Hints →
    Except Fault (Int × List FiInfo)

/-- `struct fi_provider` -/
structure FiProvider where
  name : Option CString
  version : BitVec 32
  fiVersion : BitVec 32
  getinfo : Option Getinfo
  /-- Whether there is an entry point for fabrics. -/
  fabric : Bool

inductive ProvType
  | core
  | util
  | hook
  deriving DecidableEq, Repr

/-- `ofi_set_prov_type` -/
def FiProvider.type (provider : FiProvider) : ProvType :=
  if provider.getinfo.isNone then .hook
  else if provider.name.any ofiHasUtilPrefix then .util
  else .core

/-- `struct ofi_prov` -/
structure OfiProv where
  provName : CString
  provider : Option FiProvider := none
  hidden : Bool := false

/-- `ofi_ordered_provs_init` -/
def ofiOrderedProvsInit : List OfiProv :=
  [{ provName := "sstmac".toList },
    { provName := "ofi_hook_perf".toList },
    { provName := "ofi_hook_debug".toList },
    { provName := "ofi_hook_noop".toList }]

/-- `ofi_getinfo_filter`: positive filters are for core providers only. -/
def ofiGetinfoFilter (filter : FiFilter) (provider : FiProvider) (name : CString) : Bool :=
  if !filter.negated && provider.type != .core then false
  else ofiApplyProvInitFilter filter name

/-- `ofi_getprov` -/
def ofiGetprov (registry : List OfiProv) (name : CString) : Option Nat :=
  registry.findIdx? (·.provName == name)

/-- `FI_VERSION_GE` -/
def fiVersionGe (v w : BitVec 32) : Bool :=
  v >>> 16 > w >>> 16 || (v >>> 16 == w >>> 16 && v &&& 0xFFFF == w &&& 0xFFFF) ||
    (v >>> 16 == w >>> 16 && v &&& 0xFFFF > w &&& 0xFFFF)

/-- `ofi_register_provider`.  The entry of a name known beforehand is filled by a jump past the line
that would hide it. -/
def ofiRegisterProvider (filter : FiFilter) (registry : List OfiProv)
    (provider : Option FiProvider) : Int × List OfiProv :=
  match provider with
  | none => (-fiEinval, registry)
  | some p =>
    match p.name with
    | none => (-fiEinval, registry)
    | some name =>
      if !p.fabric then (-fiEinval, registry)
      else if p.fiVersion < fiVersion 1 3 then (-fiEnosys, registry)
      else
        let hidden := ofiGetinfoFilter filter p name
        match ofiGetprov registry name with
        | none => (0, registry ++ [{ provName := name, provider := some p, hidden := hidden }])
        | some i =>
          match registry[i]?.bind (·.provider) with
          -- `goto update_prov_registry`
          | none => (0, registry.modify i fun e => { e with provider := some p })
          | some old =>
            if fiVersionGe old.version p.version then (-fiEalready, registry)
            else
              (0, registry.modify i fun e =>
                { e with provider := some p, hidden := e.hidden || hidden })

structure Library where
  filter : FiFilter
  registry : List OfiProv

/-- `fi_ini`, with the value of the parameter `provider` and what `fi_prov_ini` returned in each of the
shared libraries, in the order in which they were opened.  That the provider constants are all null is
an assumption: `HOOK_NOOP_INIT` is a call of `fi_hook_noop_ini`, which is not among the sources. -/
def fiIni (provider : Option CString) (libs : List (Option FiProvider)) : Library :=
  let filter := ofiCreateFilter provider
  let constants : List (Option FiProvider) := List.replicate 18 none
  { filter := filter
    registry := (libs ++ constants).foldl (fun r p => (ofiRegisterProvider filter r p).2)
      ofiOrderedProvsInit }

/-! ## §3 — `fi_getinfo` -/

/-- `ofi_getprovinfo` -/
def ofiGetprovinfo (registry : List OfiProv) : Int × List FiInfo :=
  let info := registry.filterMap fun e => e.provider.map fun p =>
    ({ fabricAttr := { provName := p.name, provVersion := p.version } } : FiInfo)
  (if info.isEmpty then -fiEnodata else 0, info)

/-- `ofi_set_prov_attr`, and the version the caller asked for. -/
def ofiSetProvAttr (version : BitVec 32) (provider : FiProvider) (info : FiInfo) : FiInfo :=
  let name := provider.name.getD []
  { info with fabricAttr := { info.fabricAttr with
      provName := some (info.fabricAttr.provName.elim name fun core => core ++ ';' :: name)
      provVersion := provider.version
      apiVersion := version } }

/-- `ofi_layering_ok` -/
def ofiLayeringOk (provider : FiProvider) (provVec : List CString) (flags : BitVec 64) : Bool :=
  let name := provider.name.getD []
  let isExcluded (s : CString) : Bool := s.head? == some '^'
  -- excluded providers are listed at the end
  let excluded := provVec.reverse.takeWhile isExcluded
  let provVec := (provVec.reverse.dropWhile isExcluded).reverse
  if excluded.any fun s => sameName s.tail name then false
  else if hasFlag flags ofiCoreProvOnly &&
      (provider.type != .core || (provVec.isEmpty && sameName name "sockets".toList)) then false
  else
    match provVec with
    | [] => true
    | [v] =>
      -- a utility provider goes over the core provider asked for, with two exceptions
      if provider.type == .util && !ofiHasUtilPrefix v then
        !(sameName v "sockets".toList || sameName v "shm".toList)
      else sameName name v
    | [v, w] =>
      if ofiHasUtilPrefix v && !ofiHasUtilPrefix w then sameName name v else sameName name w
    | vs => sameName name (vs.getLastD [])

/-- One round of the loop of `fi_getinfo`: what the provider returns is put at the end. -/
def getinfoRound (version : BitVec 32) (node service : Option CString) (flags : BitVec 64)
    (hints : Option Hints) (provVec : List CString) (info : List FiInfo) (prov : OfiProv) :
    Except Fault (List FiInfo) :=
  match prov.provider with
  | none => .ok info
  | some p =>
    match p.getinfo with
    | none => .ok info
    | some getinfo =>
      if prov.hidden && !hasFlag flags ofiGetinfoHidden || !ofiLayeringOk p provVec flags ||
          fiVersionLt p.fiVersion version then .ok info
      else do
        let (ret, cur) ← getinfo version node service flags hints
        return if ret ≠ 0 then info else info ++ cur.map (ofiSetProvAttr version p)

/-- `ofi_filter_info` -/
def ofiFilterInfo (filter : FiFilter) (info : List FiInfo) : List FiInfo :=
  if filter.names.isNone then info
  else info.filter fun e => !ofiApplyProvPostFilter filter (e.fabricAttr.provName.getD [])

/-- The provider name of the hints. -/
def hintedProvName (hints : Option Hints) : Option CString :=
  (hints.bind (·.fabricAttr)).bind (·.provName)

/-- `fi_getinfo` -/
def fiGetinfo (lib : Library) (version : BitVec 32) (node service : Option CString)
    (flags : BitVec 64) (hints : Option Hints) : Except Fault (Int × List FiInfo) :=
  if fiVersionLt (fiVersion 1 9) version then .ok (-fiEnosys, [])
  else if flags = fiProvAttrOnly then .ok (ofiGetprovinfo lib.registry)
  else do
    let provVec := (hintedProvName hints).elim [] (·.splitOn ';')
    let info ← lib.registry.foldlM (getinfoRound version node service flags hints provVec) []
    let internal := ofiCoreProvOnly ||| ofiGetinfoInternal ||| ofiGetinfoHidden
    let info := if hasFlag flags internal then info else ofiFilterInfo lib.filter info
    return (if info.isEmpty then -fiEnodata else 0, info)

/-! ## §4 — the provider -/

/-- `sstmac_prov` -/
def sstmacProv : FiProvider where
  name := some "sstmac".toList
  version := fiVersion 1 0
  fiVersion := fiVersion 1 9
  getinfo := some fun version _ _ _ hints => sstmacGetinfo version hints
  fabric := true

/-- `fi_prov_ini` of the provider's shared library. -/
def fiProvIni : Option FiProvider := none

end SstTransports.Core
