import QtDataSync.Lib.QHash
import QtDataSync.Lib.QSettings
import QtDataSync.Messages.Utf8String
import QtDataSync.Store.LocalStore

/-!
# Connector.RemoteConfig — the configuration of the server in the settings

`storeConfig` writes the configuration into the group `remote`, its headers one by one into a group below it, and
`loadConfig` reads it.  The headers are read if `remote/headers` is one of the child groups; a child group has no slash in
its name, so that they never are, and the headers of the defaults take their place (`headers_loadConfig`).
-/

namespace QtDataSync

/-- `RemoteConfig::HeaderHash`. -/
structure HeaderHash where
  entries : QHash QByteArray QByteArray
  nodup : entries.keys.Nodup
deriving DecidableEq

namespace HeaderHash

def empty : HeaderHash := ⟨[], List.nodup_nil⟩

def insert (h : HeaderHash) (name value : QByteArray) : HeaderHash where
  entries := h.entries.insert name value
  nodup := QHash.nodup_insert h.nodup name value

/-- `operator==`. -/
def Same (h h' : HeaderHash) : Prop := h.entries.Perm h'.entries

instance (h h' : HeaderHash) : Decidable (h.Same h') := inferInstanceAs (Decidable (h.entries.Perm h'.entries))

end HeaderHash

structure RemoteConfig (Url : Type) where
  url : Url
  accessKey : String
  headers : HeaderHash
  keepaliveTimeout : Int32

/-- `operator==`. -/
structure RemoteConfig.Same {Url : Type} (config config' : RemoteConfig Url) : Prop where
  url : config.url = config'.url
  accessKey : config.accessKey = config'.accessKey
  headers : config.headers.Same config'.headers
  keepaliveTimeout : config.keepaliveTimeout = config'.keepaliveTimeout

/-- `QVariant`, as it is stored and read again. -/
structure QVariant (V Url : Type) where
  invalid : V
  ofUrl : Url → V
  toUrl : V → Url
  ofString : String → V
  toString : V → String
  ofByteArray : QByteArray → V
  toByteArray : V → QByteArray
  ofInt : Int32 → V
  toInt : V → Int32
  ofBool : Bool → V
  ofHeaders : HeaderHash → V
  toHeaders : V → HeaderHash

/-- Values round trip. -/
structure QVariant.RoundTrips {V Url : Type} (q : QVariant V Url) : Prop where
  url : ∀ url, q.toUrl (q.ofUrl url) = url
  string : ∀ s, q.toString (q.ofString s) = s
  int : ∀ n, q.toInt (q.ofInt n) = n
  headers : ∀ headers, q.toHeaders (q.ofHeaders headers) = headers

namespace Connector

/-- The property that `sValue` uses, and the name of the host. -/
structure Defaults (Url : Type) where
  remoteConfiguration : RemoteConfig Url
  machineHostName : String

def keyRemoteEnabled : String := "enabled"
def keyRemoteConfig : String := "remote"
def keyRemoteUrl : String := "remote/url"
def keyRemoteAccessKey : String := "remote/accessKey"
def keyRemoteHeaders : String := "remote/headers"
def keyRemoteKeepaliveTimeout : String := "remote/keepaliveTimeout"
def keyDeviceName : String := "deviceName"
def keySendCmac : String := "sendCmac"

variable {V Url : Type} (q : QVariant V Url) (defaults : Defaults Url)

/-- The second half of `sValue`: what the defaults say. -/
def defaultValue (key : String) : V :=
  let config := defaults.remoteConfiguration
  if key = keyRemoteUrl then q.ofUrl config.url
  else if key = keyRemoteAccessKey then q.ofString config.accessKey
  else if key = keyRemoteHeaders then q.ofHeaders config.headers
  else if key = keyRemoteKeepaliveTimeout then q.ofInt config.keepaliveTimeout
  else if key = keyRemoteEnabled then q.ofBool true
  else if key = keyDeviceName then q.ofString defaults.machineHostName
  else if key = keySendCmac then q.ofBool false
  else q.invalid

/-- The headers in the group `remote/headers`. -/
def storedHeaders (settings : QSettings V) : HeaderHash :=
  let group := settings.beginGroup keyRemoteHeaders
  group.childKeys.foldl (fun headers hKey =>
    headers.insert (toUtf8 hKey) (q.toByteArray ((group.value hKey).getD q.invalid))) .empty

def sValue (settings : QSettings V) (key : String) : V :=
  if key = keyRemoteHeaders then
    if keyRemoteHeaders ∈ settings.childGroups then q.ofHeaders (storedHeaders q settings)
    else defaultValue q defaults key
  else match settings.value key with
    | some res => res
    | none => defaultValue q defaults key

def loadConfig (settings : QSettings V) : RemoteConfig Url where
  url := q.toUrl (sValue q defaults settings keyRemoteUrl)
  accessKey := q.toString (sValue q defaults settings keyRemoteAccessKey)
  headers := q.toHeaders (sValue q defaults settings keyRemoteHeaders)
  keepaliveTimeout := q.toInt (sValue q defaults settings keyRemoteKeepaliveTimeout)

/-- The loop of `storeConfig`. -/
def storeHeaders (settings : QSettings V) (headers : QHash QByteArray QByteArray) : QSettings V :=
  headers.foldl (fun settings entry => settings.setValue (fromUtf8 entry.1) (q.ofByteArray entry.2)) settings

def storeConfig (settings : QSettings V) (config : RemoteConfig Url) : QSettings V :=
  let settings := settings.remove keyRemoteConfig
  let settings := settings.setValue keyRemoteUrl (q.ofUrl config.url)
  let settings := settings.setValue keyRemoteAccessKey (q.ofString config.accessKey)
  let settings := storeHeaders q (settings.beginGroup keyRemoteHeaders) config.headers.entries
  let settings := settings.endGroup
  settings.setValue keyRemoteKeepaliveTimeout (q.ofInt config.keepaliveTimeout)

/-- What `onAccount` does with the configuration. -/
def onAccount (settings : QSettings V) : QSettings V := storeConfig q settings (loadConfig q defaults settings)

/-- The calls of `setRawHeader` in `doConnect`. -/
def rawHeaders (settings : QSettings V) : List (QByteArray × QByteArray) :=
  (q.toHeaders (sValue q defaults settings keyRemoteHeaders)).entries

/-- The configuration is what is loaded, and its headers are sent. -/
structure Survives (settings : QSettings V) (config : RemoteConfig Url) : Prop where
  loaded : (loadConfig q defaults settings).Same config
  sent : (rawHeaders q defaults settings).Perm config.headers.entries

/-! ### What is read again -/

theorem normalizedKey_keys : QSettings.normalizedKey keyRemoteUrl = ["remote", "url"] ∧
    QSettings.normalizedKey keyRemoteAccessKey = ["remote", "accessKey"] ∧
    QSettings.normalizedKey keyRemoteHeaders = ["remote", "headers"] ∧
    QSettings.normalizedKey keyRemoteKeepaliveTimeout = ["remote", "keepaliveTimeout"] := by
  decide

/-- **The headers are those of the defaults**, whatever has been stored. -/
theorem headers_loadConfig (hq : q.RoundTrips) (settings : QSettings V) :
    (loadConfig q defaults settings).headers = defaults.remoteConfiguration.headers := by
  have hnot : keyRemoteHeaders ∉ settings.childGroups := settings.notMem_childGroups (by decide)
  show q.toHeaders (sValue q defaults settings keyRemoteHeaders) = _
  rw [sValue, if_pos rfl, if_neg hnot]
  exact hq.headers _

theorem groups_storeHeaders (headers : QHash QByteArray QByteArray) (settings : QSettings V) :
    (storeHeaders q settings headers).groups = settings.groups := by
  induction headers generalizing settings with
  | nil => rfl
  | cons entry headers ih => exact (ih _).trans (settings.groups_setValue _ _)

/-- Headers are stored in the group only. -/
theorem lookup_storeHeaders {headers : QHash QByteArray QByteArray} {settings : QSettings V} {path : List String}
    (hpath : ¬settings.group <+: path) : (storeHeaders q settings headers).lookup path = settings.lookup path := by
  induction headers generalizing settings with
  | nil => rfl
  | cons entry headers ih =>
    have hne : path ≠ settings.path (fromUtf8 entry.1) := by
      rintro rfl
      exact hpath (List.prefix_append _ _)
    refine (ih ?_).trans (settings.lookup_setValue_of_ne _ hne)
    rw [QSettings.group_setValue]
    exact hpath

theorem group_storeConfig (settings : QSettings V) (config : RemoteConfig Url) :
    (storeConfig q settings config).group = settings.group := by
  rw [storeConfig, QSettings.group_setValue, QSettings.group]
  show (storeHeaders q _ _).groups.tail.reverse.flatten = _
  rw [groups_storeHeaders]
  show (QSettings.setValue _ _ _).groups.reverse.flatten = _
  rw [QSettings.groups_setValue, QSettings.groups_setValue]
  rfl

/-- What `storeConfig` leaves under the other three keys. -/
theorem lookup_storeConfig (settings : QSettings V) (config : RemoteConfig Url) :
    (storeConfig q settings config).lookup (settings.group ++ ["remote", "url"]) = some (q.ofUrl config.url) ∧
    (storeConfig q settings config).lookup (settings.group ++ ["remote", "accessKey"]) =
      some (q.ofString config.accessKey) ∧
    (storeConfig q settings config).lookup (settings.group ++ ["remote", "keepaliveTimeout"]) =
      some (q.ofInt config.keepaliveTimeout) := by
  obtain ⟨hurl, haccessKey, hheaders, hkeepalive⟩ := normalizedKey_keys
  obtain ⟨s₁, hs₁⟩ : ∃ s₁, s₁ = (settings.remove keyRemoteConfig).setValue keyRemoteUrl (q.ofUrl config.url) := ⟨_, rfl⟩
  obtain ⟨s₂, hs₂⟩ : ∃ s₂, s₂ = s₁.setValue keyRemoteAccessKey (q.ofString config.accessKey) := ⟨_, rfl⟩
  obtain ⟨s₃, hs₃⟩ : ∃ s₃, s₃ = (storeHeaders q (s₂.beginGroup keyRemoteHeaders) config.headers.entries).endGroup :=
    ⟨_, rfl⟩
  have hstored : storeConfig q settings config =
      s₃.setValue keyRemoteKeepaliveTimeout (q.ofInt config.keepaliveTimeout) := by
    rw [hs₃, hs₂, hs₁]
    rfl
  have hgroup₁ : s₁.group = settings.group := by rw [hs₁, QSettings.group_setValue, QSettings.group_remove]
  have hgroup₂ : s₂.group = settings.group := by rw [hs₂, QSettings.group_setValue, hgroup₁]
  have hgroup₃ : s₃.group = settings.group := by
    rw [← hgroup₂, QSettings.group, QSettings.group, hs₃]
    show (storeHeaders q _ _).groups.tail.reverse.flatten = _
    rw [groups_storeHeaders]
    rfl
  -- the paths of the three keys are not in the group of the headers
  have hothers : ∀ name, name ≠ "headers" → name ≠ "keepaliveTimeout" →
      (storeConfig q settings config).lookup (settings.group ++ ["remote", name]) =
        s₂.lookup (settings.group ++ ["remote", name]) := by
    intro name hname hname'
    rw [hstored, QSettings.lookup_setValue_of_ne, hs₃, QSettings.lookup_endGroup, lookup_storeHeaders q,
      QSettings.lookup_beginGroup]
    · rw [QSettings.group_beginGroup, QSettings.path, hgroup₂, hheaders, List.prefix_append_right_inj]
      simpa using Ne.symm hname
    · rw [QSettings.path, hgroup₃, hkeepalive]
      simpa using hname'
  refine ⟨?_, ?_, ?_⟩
  · rw [hothers "url" (by decide) (by decide), hs₂, QSettings.lookup_setValue_of_ne, hs₁]
    · have hself := (settings.remove keyRemoteConfig).lookup_setValue_self keyRemoteUrl
        (by rw [hurl]; simp) (q.ofUrl config.url)
      rwa [QSettings.path, QSettings.group_remove, hurl] at hself
    · rw [QSettings.path, hgroup₁, haccessKey]
      simp
  · rw [hothers "accessKey" (by decide) (by decide), hs₂]
    have hself := s₁.lookup_setValue_self keyRemoteAccessKey (by rw [haccessKey]; simp)
      (q.ofString config.accessKey)
    rwa [QSettings.path, hgroup₁, haccessKey] at hself
  · rw [hstored]
    have hself := s₃.lookup_setValue_self keyRemoteKeepaliveTimeout (by rw [hkeepalive]; simp)
      (q.ofInt config.keepaliveTimeout)
    rwa [QSettings.path, hgroup₃, hkeepalive] at hself

theorem sValue_of_lookup {settings : QSettings V} {key : String} {path : List String} {v : V}
    (hkey : QSettings.normalizedKey key = path) (hpath : path ≠ []) (hheaders : key ≠ keyRemoteHeaders)
    (h : settings.lookup (settings.group ++ path) = some v) : sValue q defaults settings key = v := by
  have hvalue : settings.value key = some v := by
    refine settings.value_eq_some (hkey ▸ hpath) ?_
    rw [QSettings.path, hkey]
    exact h
  rw [sValue, if_neg hheaders, hvalue]

/-- All but the headers is loaded again. -/
theorem loadConfig_storeConfig (hq : q.RoundTrips) (settings : QSettings V) (config : RemoteConfig Url) :
    loadConfig q defaults (storeConfig q settings config) =
      { config with headers := defaults.remoteConfiguration.headers } := by
  obtain ⟨hurl, haccessKey, -, hkeepalive⟩ := normalizedKey_keys
  obtain ⟨hloadUrl, hloadAccessKey, hloadKeepalive⟩ := lookup_storeConfig q settings config
  have hheaders := headers_loadConfig q defaults hq (storeConfig q settings config)
  rw [← group_storeConfig q settings config] at hloadUrl hloadAccessKey hloadKeepalive
  have h1 := sValue_of_lookup q defaults hurl (by simp) (by decide) hloadUrl
  have h2 := sValue_of_lookup q defaults haccessKey (by simp) (by decide) hloadAccessKey
  have h3 := sValue_of_lookup q defaults hkeepalive (by simp) (by decide) hloadKeepalive
  unfold loadConfig at hheaders ⊢
  rw [h1, h2, h3, hq.url, hq.string, hq.int]
  exact congrArg (RemoteConfig.mk config.url config.accessKey · config.keepaliveTimeout) hheaders

/-- **When a configuration survives** being stored: if its headers are those of the defaults. -/
theorem survives_iff (hq : q.RoundTrips) (settings : QSettings V) (config : RemoteConfig Url) :
    Survives q defaults (storeConfig q settings config) config ↔
      defaults.remoteConfiguration.headers.Same config.headers := by
  have hloaded := loadConfig_storeConfig q defaults hq settings config
  constructor
  · intro h
    have hsame := h.loaded.headers
    rw [hloaded] at hsame
    exact hsame
  · intro h
    refine ⟨by rw [hloaded]; exact ⟨rfl, rfl, h, rfl⟩, ?_⟩
    have hheaders := headers_loadConfig q defaults hq (storeConfig q settings config)
    exact (List.Perm.of_eq (congrArg HeaderHash.entries hheaders)).trans h

namespace Sample

/-- Values of the types that are stored. -/
inductive Value where
  | invalid
  | url (url : String)
  | string (s : String)
  | byteArray (bytes : QByteArray)
  | int (n : Int32)
  | bool (b : Bool)
  | headers (headers : HeaderHash)

def variants : QVariant Value String where
  invalid := .invalid
  ofUrl := .url
  toUrl | .url url => url | _ => ""
  ofString := .string
  toString | .string s => s | _ => ""
  ofByteArray := .byteArray
  toByteArray | .byteArray bytes => bytes | _ => []
  ofInt := .int
  toInt | .int n => n | _ => 0
  ofBool := .bool
  ofHeaders := .headers
  toHeaders | .headers headers => headers | _ => .empty

theorem roundTrips : variants.RoundTrips := ⟨fun _ => rfl, fun _ => rfl, fun _ => rfl, fun _ => rfl⟩

def settings : QSettings Value := ⟨[], [["connector"]], nofun, by simp [QSettings.Slashless]⟩

/-- A server with one header, `X: 1`. -/
def config : RemoteConfig String := ⟨"wss://localhost", "key", HeaderHash.empty.insert [0x58] [0x31], 1⟩

def defaultsWith (headers : HeaderHash) : Defaults String := ⟨⟨"wss://localhost", "", headers, 1⟩, "host"⟩

end Sample

/-- The headers of the defaults are those that have been stored. -/
theorem survives_sameHeaders : Survives Sample.variants (Sample.defaultsWith Sample.config.headers)
    (storeConfig Sample.variants Sample.settings Sample.config) Sample.config :=
  (survives_iff _ _ Sample.roundTrips _ _).mpr (List.Perm.refl _)

/-- The header of a configuration is lost if the defaults have none. -/
theorem not_survives : ¬∀ (settings : QSettings Sample.Value) (config : RemoteConfig String) (defaults : Defaults String),
    Survives Sample.variants defaults (storeConfig Sample.variants settings config) config := by
  intro h
  have hheaders := (h Sample.settings Sample.config (Sample.defaultsWith .empty)).loaded.headers
  rw [headers_loadConfig _ _ Sample.roundTrips] at hheaders
  exact absurd hheaders.length_eq (by decide)

end Connector

end QtDataSync
