import Mathlib.Data.Rat.Defs
import QtDataSync.Account.Import
import QtDataSync.Connector.RemoteConfig
import QtDataSync.Lib.Base64

/-!
# Account.ExportData — exported accounts as JSON

`serializeExportData` writes byte arrays as base64 or as text, and the configuration of the server, if there is one, as
an object in the object.  `deserializeExportData` reads it, and refuses data that is not complete.
-/

namespace QtDataSync.AccountManager

/-! ### JSON objects -/

inductive Json where
  | undefined
  | null
  | bool (b : Bool)
  | double (x : ℚ)
  | string (s : String)
  | array (elements : List Json)
  | object (members : List (String × Json))

namespace Json

def toBool : Json → Bool
  | bool b => b
  | _ => false

/-- Only integers of the type are converted. -/
def toInt : Json → Int32
  | double x => if x.den = 1 ∧ -2 ^ 31 ≤ x.num ∧ x.num < 2 ^ 31 then Int32.ofInt x.num else 0
  | _ => 0

def toString : Json → String
  | string s => s
  | _ => ""

def isObject : Json → Bool
  | object _ => true
  | _ => false

def toObject : Json → List (String × Json)
  | object members => members
  | _ => []

theorem toInt_double (n : Int32) : toInt (double n.toInt) = n := by
  have hrange := n.minValue_le_toInt
  have hrange' := n.toInt_lt
  rw [toInt, if_pos]
  · rw [Rat.num_intCast, Int32.ofInt_toInt]
  · rw [Rat.num_intCast, Rat.den_intCast]
    exact ⟨rfl, hrange, hrange'⟩

end Json

/-- `QJsonObject`: the members by ascending keys. -/
abbrev JsonObject := List (String × Json)

namespace JsonObject

/-- `operator[]` and `insert`. -/
def insert : JsonObject → String → Json → JsonObject
  | [], key, value => [(key, value)]
  | member :: o, key, value =>
    if key < member.1 then (key, value) :: member :: o
    else if key = member.1 then (key, value) :: o
    else member :: insert o key value

def value (o : JsonObject) (key : String) : Json := (o.lookup key).getD .undefined

theorem lookup_insert_self (o : JsonObject) (key : String) (v : Json) : (o.insert key v).lookup key = some v := by
  induction o with
  | nil => exact List.lookup_cons_self
  | cons member o ih =>
    rw [insert]
    split_ifs with hlt heq
    · exact List.lookup_cons_self
    · exact List.lookup_cons_self
    · rw [List.lookup_cons, beq_eq_false_iff_ne.mpr heq]
      exact ih

theorem lookup_insert_of_ne (o : JsonObject) {key k : String} (v : Json) (h : k ≠ key) :
    (o.insert key v).lookup k = o.lookup k := by
  have hk : (k == key) = false := beq_eq_false_iff_ne.mpr h
  induction o with
  | nil => rw [insert, List.lookup_cons, hk]
  | cons member o ih =>
    rw [insert]
    split_ifs with hlt heq
    · rw [List.lookup_cons, hk]
    · rw [List.lookup_cons, List.lookup_cons, hk, ← heq, hk]
    · rw [List.lookup_cons, List.lookup_cons, ih]

@[simp] theorem value_insert_self (o : JsonObject) (key : String) (v : Json) : (o.insert key v).value key = v := by
  rw [value, lookup_insert_self]
  rfl

theorem value_insert_of_ne (o : JsonObject) {key k : String} (v : Json) (h : k ≠ key) :
    (o.insert key v).value k = o.value k := by
  rw [value, lookup_insert_of_ne o v h, value]

theorem insert_perm {o : JsonObject} {key : String} (v : Json) (h : key ∉ o.map Prod.fst) :
    (o.insert key v).Perm ((key, v) :: o) := by
  induction o with
  | nil => exact List.Perm.refl _
  | cons member o ih =>
    rw [List.map_cons, List.mem_cons, not_or] at h
    rw [insert]
    split_ifs with hlt heq
    · exact List.Perm.refl _
    · exact absurd heq h.1
    · exact ((ih h.2).cons member).trans (List.Perm.swap _ _ _)

/-- Members with different keys are all kept. -/
theorem foldl_insert_perm {l : List (String × Json)} (h : (l.map Prod.fst).Nodup) :
    (l.foldl (fun o member => JsonObject.insert o member.1 member.2) []).Perm l := by
  induction l using List.reverseRecOn with
  | nil => exact List.Perm.refl []
  | append_singleton l member ih =>
    rw [List.map_append, List.nodup_append] at h
    have hperm := ih h.1
    rw [List.foldl_append]
    refine ((insert_perm member.2 fun hmem => ?_).trans (hperm.cons member)).trans
      (List.perm_append_singleton member l).symm
    exact h.2.2 _ ((hperm.map Prod.fst).mem_iff.mp hmem) _ (List.mem_singleton.mpr rfl) rfl

end JsonObject

/-! ### Export data -/

structure ExportData (Uuid Url : Type) extends Account.ExportData Uuid where
  config : Option (RemoteConfig Url)

/-- The conversions of `QUuid` and `QUrl`. -/
structure Conversions (Uuid Url : Type) where
  uuidToString : Uuid → String
  uuidOfString : String → Uuid
  isNull : Uuid → Bool
  toRfc4122 : Uuid → QByteArray
  urlToString : Url → String
  urlOfString : String → Url
  isValid : Url → Bool

/-- The conversions round trip. -/
structure Conversions.RoundTrips {Uuid Url : Type} (conv : Conversions Uuid Url) : Prop where
  uuid : ∀ uuid, conv.uuidOfString (conv.uuidToString uuid) = uuid
  url : ∀ url, conv.isValid url = true → conv.urlOfString (conv.urlToString url) = url

variable {Uuid Url : Type} (conv : Conversions Uuid Url)

def ExportData.signData (data : ExportData Uuid Url) : QByteArray :=
  data.pNonce ++ conv.toRfc4122 data.partnerId ++ data.scheme

def serializeHeaders (headers : HeaderHash) : JsonObject :=
  headers.entries.foldl (fun hJson it =>
    hJson.insert (fromUtf8 it.1) (.string (fromUtf8 (Base64.encode it.2)))) []

def serializeConfig (config : RemoteConfig Url) : JsonObject :=
  let cJson : JsonObject := JsonObject.insert [] "url" (.string (conv.urlToString config.url))
  let cJson := cJson.insert "accessKey" (.string config.accessKey)
  let cJson := cJson.insert "keepaliveTimeout" (.double config.keepaliveTimeout.toInt)
  cJson.insert "headers" (.object (serializeHeaders config.headers))

def serializeExportData (data : ExportData Uuid Url) : JsonObject :=
  let dJson : JsonObject := JsonObject.insert [] "trusted" (.bool data.trusted)
  let dJson := dJson.insert "nonce" (.string (fromUtf8 (Base64.encode data.pNonce)))
  let dJson := dJson.insert "partner" (.string (conv.uuidToString data.partnerId))
  let dJson := dJson.insert "scheme" (.string (fromUtf8 data.scheme))
  let dJson := dJson.insert "cmac" (.string (fromUtf8 (Base64.encode data.cmac)))
  match data.config with
  | some config => dJson.insert "config" (.object (serializeConfig conv config))
  | none => dJson.insert "config" .null

def deserializeHeaders (hJson : JsonObject) : HeaderHash :=
  hJson.foldl (fun headers it => headers.insert (toUtf8 it.1) (Base64.decode (toUtf8 it.2.toString))) .empty

def deserializeConfig (cJson : JsonObject) : RemoteConfig Url where
  url := conv.urlOfString (cJson.value "url").toString
  accessKey := (cJson.value "accessKey").toString
  keepaliveTimeout := (cJson.value "keepaliveTimeout").toInt
  headers := deserializeHeaders (cJson.value "headers").toObject

/-- `none` is the exception for incomplete or invalid data. -/
def deserializeExportData (importData : JsonObject) : Option (ExportData Uuid Url) :=
  let data : ExportData Uuid Url := {
    trusted := (importData.value "trusted").toBool
    pNonce := Base64.decode (toUtf8 (importData.value "nonce").toString)
    partnerId := conv.uuidOfString (importData.value "partner").toString
    scheme := toUtf8 (importData.value "scheme").toString
    cmac := Base64.decode (toUtf8 (importData.value "cmac").toString)
    config :=
      if (importData.value "config").isObject then some (deserializeConfig conv (importData.value "config").toObject)
      else none }
  if data.pNonce.isEmpty || conv.isNull data.partnerId || data.scheme.isEmpty || data.cmac.isEmpty ||
      data.config.any fun config => !conv.isValid config.url then none
  else some data

/-- Bytes that are found again in their text. -/
def IsUtf8 (bytes : QByteArray) : Prop := toUtf8 (fromUtf8 bytes) = bytes

/-- Data that can be exported. -/
structure Exportable (data : ExportData Uuid Url) : Prop where
  pNonce : data.pNonce ≠ []
  partnerId : conv.isNull data.partnerId = false
  scheme : data.scheme ≠ []
  scheme_utf8 : IsUtf8 data.scheme
  cmac : data.cmac ≠ []
  url : ∀ config ∈ data.config, conv.isValid config.url = true
  headers : ∀ config ∈ data.config, ∀ name ∈ config.headers.entries.keys, IsUtf8 name

/-- All fields are equal. -/
structure ExportData.Same (data data' : ExportData Uuid Url) : Prop where
  fields : data.toExportData = data'.toExportData
  config : Option.Rel RemoteConfig.Same data.config data'.config

/-- `verifyImportCmac` for the data, with a function that computes a cmac. -/
def Verifies (cmac : QByteArray → QByteArray → QByteArray → Option QByteArray) (key : QByteArray)
    (data : ExportData Uuid Url) : Prop :=
  cmac data.scheme key (data.signData conv) = some data.cmac

/-- The exported data is read again. -/
structure ReadAgain (json : JsonObject) (data : ExportData Uuid Url) : Prop where
  same : ∃ data', deserializeExportData conv json = some data' ∧ data'.Same data ∧
    data'.signData conv = data.signData conv ∧
    ∀ cmac key, Verifies conv cmac key data' ↔ Verifies conv cmac key data

/-! ### Texts -/

theorem utf8EncodeChar_ascii {ch : UInt8} (h : ch.toNat < 128) : String.utf8EncodeChar (Char.ofNat ch.toNat) = [ch] := by
  have hall : ∀ n : Fin 128, String.utf8EncodeChar (Char.ofNat n.val) = [UInt8.ofNat n.val] := by decide
  rw [hall ⟨ch.toNat, h⟩, UInt8.ofNat_toNat]

theorem toNat_ofNat_ascii {n : ℕ} (h : n < 128) : (Char.ofNat n).toNat = n := by
  have hall : ∀ n : Fin 128, (Char.ofNat n.val).toNat = n.val := by decide
  exact hall ⟨n, h⟩

theorem isUtf8_of_ascii {bytes : QByteArray} (h : ∀ ch ∈ bytes, 0 < ch.toNat ∧ ch.toNat < 128) : IsUtf8 bytes := by
  obtain ⟨s, hs⟩ : ∃ s, s = String.ofList (bytes.map fun ch => Char.ofNat ch.toNat) := ⟨_, rfl⟩
  have hbytes : toUtf8 s = bytes := by
    rw [hs, toUtf8, String.toList_ofList, List.flatMap_map]
    calc bytes.flatMap (fun ch => String.utf8EncodeChar (Char.ofNat ch.toNat))
        = bytes.flatMap (fun ch => [ch]) := List.flatMap_congr fun ch hch => utf8EncodeChar_ascii (h ch hch).2
      _ = bytes := List.flatMap_singleton' bytes
  have hchar : ∀ c ∈ s.toList, 0 < c.toNat ∧ c.toNat < 128 := by
    rw [hs, String.toList_ofList]
    rintro c hc
    obtain ⟨ch, hch, rfl⟩ := List.mem_map.mp hc
    obtain ⟨hpos, hlt⟩ := h ch hch
    rw [toNat_ofNat_ascii hlt]
    exact ⟨hpos, hlt⟩
  have hstreamable : Streamable s := by
    refine ⟨fun hnull => absurd (hchar _ hnull).1 (by decide), fun hbom => ?_⟩
    exact absurd (hchar _ (List.mem_of_mem_head? hbom)).2 (by decide)
  rw [IsUtf8, ← hbytes, fromUtf8_toUtf8_iff.mpr hstreamable]

theorem isUtf8_encode (bytes : QByteArray) : IsUtf8 (Base64.encode bytes) := isUtf8_of_ascii (Base64.ascii_encode bytes)

@[simp] theorem decode_text (bytes : QByteArray) :
    Base64.decode (toUtf8 (fromUtf8 (Base64.encode bytes))) = bytes := by
  rw [isUtf8_encode bytes, Base64.decode_encode]

theorem fromUtf8_injective {a b : QByteArray} (ha : IsUtf8 a) (hb : IsUtf8 b) (h : fromUtf8 a = fromUtf8 b) : a = b := by
  rw [← ha, ← hb, h]

/-! ### The round trip -/

theorem entries_deserializeHeaders (hJson : JsonObject) : (deserializeHeaders hJson).entries =
    (hJson.map fun it => (toUtf8 it.1, Base64.decode (toUtf8 it.2.toString))).foldl
      (fun h entry => QHash.insert h entry.1 entry.2) [] := by
  induction hJson using List.reverseRecOn with
  | nil => rfl
  | append_singleton hJson it ih =>
    rw [List.map_append, List.foldl_append, ← ih, deserializeHeaders, List.foldl_append]
    rfl

/-- **The headers** are read again, whatever their values. -/
theorem deserializeHeaders_serializeHeaders (headers : HeaderHash) (h : ∀ name ∈ headers.entries.keys, IsUtf8 name) :
    (deserializeHeaders (serializeHeaders headers)).Same headers := by
  obtain ⟨entries, hentries⟩ : ∃ entries, entries = headers.entries.map fun it =>
      (fromUtf8 it.1, Json.string (fromUtf8 (Base64.encode it.2))) := ⟨_, rfl⟩
  have hkeys : (entries.map Prod.fst).Nodup := by
    rw [hentries, List.map_map]
    have hnames : headers.entries.map (Prod.fst ∘ fun it => (fromUtf8 it.1, Json.string (fromUtf8 (Base64.encode it.2))))
        = headers.entries.keys.map fromUtf8 := by
      rw [QHash.keys, List.map_map]
      rfl
    rw [hnames]
    exact headers.nodup.map_on fun a ha b hb => fromUtf8_injective (h a ha) (h b hb)
  have hserialized : (serializeHeaders headers).Perm entries := by
    have hfold := JsonObject.foldl_insert_perm hkeys
    rwa [hentries, List.foldl_map, ← hentries] at hfold
  have hread : (entries.map fun it => (toUtf8 it.1, Base64.decode (toUtf8 it.2.toString))) = headers.entries := by
    rw [hentries, List.map_map]
    refine (List.map_congr_left fun it hit => ?_).trans (List.map_id _)
    exact Prod.ext (h it.1 (List.mem_map_of_mem hit)) (decode_text it.2)
  have hperm := hserialized.map fun it => (toUtf8 it.1, Base64.decode (toUtf8 it.2.toString))
  rw [hread] at hperm
  have hnodup := (hperm.map Prod.fst).nodup_iff.mpr headers.nodup
  rw [HeaderHash.Same, entries_deserializeHeaders]
  exact (QHash.foldl_insert_perm hnodup).trans hperm

theorem deserializeConfig_serializeConfig (hconv : conv.RoundTrips) (config : RemoteConfig Url)
    (hurl : conv.isValid config.url = true) (hheaders : ∀ name ∈ config.headers.entries.keys, IsUtf8 name) :
    (deserializeConfig conv (serializeConfig conv config)).Same config := by
  have hvalues : (serializeConfig conv config).value "url" = .string (conv.urlToString config.url) ∧
      (serializeConfig conv config).value "accessKey" = .string config.accessKey ∧
      (serializeConfig conv config).value "keepaliveTimeout" = .double config.keepaliveTimeout.toInt ∧
      (serializeConfig conv config).value "headers" = .object (serializeHeaders config.headers) := by
    unfold serializeConfig
    refine ⟨?_, ?_, ?_, ?_⟩ <;> simp [JsonObject.value_insert_of_ne]
  obtain ⟨hjsonUrl, hjsonAccessKey, hjsonKeepalive, hjsonHeaders⟩ := hvalues
  refine ⟨?_, ?_, ?_, ?_⟩
  · rw [deserializeConfig, hjsonUrl]
    exact hconv.url _ hurl
  · rw [deserializeConfig, hjsonAccessKey]
    rfl
  · rw [deserializeConfig, hjsonHeaders]
    exact deserializeHeaders_serializeHeaders _ hheaders
  · rw [deserializeConfig, hjsonKeepalive]
    exact Json.toInt_double _

/-- The members that are read. -/
theorem value_serializeExportData (data : ExportData Uuid Url) :
    (serializeExportData conv data).value "trusted" = .bool data.trusted ∧
    (serializeExportData conv data).value "nonce" = .string (fromUtf8 (Base64.encode data.pNonce)) ∧
    (serializeExportData conv data).value "partner" = .string (conv.uuidToString data.partnerId) ∧
    (serializeExportData conv data).value "scheme" = .string (fromUtf8 data.scheme) ∧
    (serializeExportData conv data).value "cmac" = .string (fromUtf8 (Base64.encode data.cmac)) ∧
    (serializeExportData conv data).value "config" =
      (data.config.map fun config => Json.object (serializeConfig conv config)).getD .null := by
  unfold serializeExportData
  rcases data.config with - | config
  · refine ⟨?_, ?_, ?_, ?_, ?_, ?_⟩ <;> simp [JsonObject.value_insert_of_ne]
  · refine ⟨?_, ?_, ?_, ?_, ?_, ?_⟩ <;> simp [JsonObject.value_insert_of_ne]

/-- **The round trip** of the object. -/
theorem deserializeExportData_serializeExportData (hconv : conv.RoundTrips) {data : ExportData Uuid Url}
    (hdata : Exportable conv data) :
    ∃ data', deserializeExportData conv (serializeExportData conv data) = some data' ∧ data'.Same data := by
  obtain ⟨htrusted, hnonce, hpartner, hscheme, hcmac, hconfig⟩ := value_serializeExportData conv data
  obtain ⟨config', hconfig', hsame, hvalid⟩ : ∃ config', (if ((serializeExportData conv data).value "config").isObject then
      some (deserializeConfig conv ((serializeExportData conv data).value "config").toObject) else none) = config' ∧
      Option.Rel RemoteConfig.Same config' data.config ∧ (config'.any fun config => !conv.isValid config.url) = false := by
    rw [hconfig]
    rcases hcase : data.config with - | config
    · exact ⟨none, rfl, .none, rfl⟩
    · have hsame := deserializeConfig_serializeConfig conv hconv config (hdata.url _ hcase) (hdata.headers _ hcase)
      refine ⟨_, rfl, .some hsame, ?_⟩
      show (!conv.isValid (deserializeConfig conv (serializeConfig conv config)).url) = false
      rw [hsame.url, hdata.url _ hcase]
      rfl
  have hscheme' : toUtf8 (fromUtf8 data.scheme) = data.scheme := hdata.scheme_utf8
  refine ⟨⟨data.toExportData, config'⟩, ?_, rfl, hsame⟩
  rw [deserializeExportData]
  simp only [hconfig', htrusted, hnonce, hpartner, hscheme, hcmac, Json.toBool, Json.toString, decode_text, hconv.uuid,
    hscheme', List.isEmpty_eq_false_iff.mpr hdata.pNonce, hdata.partnerId, List.isEmpty_eq_false_iff.mpr hdata.scheme,
    List.isEmpty_eq_false_iff.mpr hdata.cmac, hvalid, Bool.or_false, Bool.false_eq_true, if_false]

/-- **Exported data is read again**, as an object and as a text. -/
theorem readAgain_serializeExportData {Text : Type} (toJson : JsonObject → Text) (fromJson : Text → JsonObject)
    (hconv : conv.RoundTrips) {data : ExportData Uuid Url} (hdata : Exportable conv data)
    (htext : fromJson (toJson (serializeExportData conv data)) = serializeExportData conv data) :
    ReadAgain conv (serializeExportData conv data) data ∧
      ReadAgain conv (fromJson (toJson (serializeExportData conv data))) data := by
  obtain ⟨data', hread, hsame⟩ := deserializeExportData_serializeExportData conv hconv hdata
  have hsign : data'.signData conv = data.signData conv := by
    rw [ExportData.signData, ExportData.signData, hsame.fields]
  have hverifies : ∀ cmac key, Verifies conv cmac key data' ↔ Verifies conv cmac key data := by
    intro cmac key
    rw [Verifies, Verifies, hsign, hsame.fields]
  rw [htext]
  exact ⟨⟨data', hread, hsame, hsign, hverifies⟩, ⟨data', hread, hsame, hsign, hverifies⟩⟩

namespace Sample

/-- A null id and another one, and urls as texts. -/
def conversions : Conversions Bool String where
  uuidToString
    | false => "\x7b00000000-0000-0000-0000-000000000000\x7d"
    | true => "\x7b67c8770b-44f1-410a-ab9a-f9b5446f13ee\x7d"
  uuidOfString s := s = "\x7b67c8770b-44f1-410a-ab9a-f9b5446f13ee\x7d"
  isNull uuid := !uuid
  toRfc4122
    | false => List.replicate 16 0
    | true => [0x67, 0xc8, 0x77, 0x0b, 0x44, 0xf1, 0x41, 0x0a, 0xab, 0x9a, 0xf9, 0xb5, 0x44, 0x6f, 0x13, 0xee]
  urlToString url := url
  urlOfString s := s
  isValid url := url ≠ ""

/-- With the scheme `CMAC` and a server. -/
def data : ExportData Bool String :=
  ⟨⟨[1, 2, 3], true, true, [0x43, 0x4D, 0x41, 0x43], [5]⟩, some Connector.Sample.config⟩

def text : String :=
  "\x7b\"cmac\":\"BQ==\",\"config\":\x7b\"accessKey\":\"key\",\"headers\":\x7b\"X\":\"MQ==\"\x7d," ++
    "\"keepaliveTimeout\":1,\"url\":\"wss://localhost\"\x7d,\"nonce\":\"AQID\"," ++
    "\"partner\":\"\x7b67c8770b-44f1-410a-ab9a-f9b5446f13ee\x7d\",\"scheme\":\"CMAC\",\"trusted\":true\x7d"

theorem roundTrips : conversions.RoundTrips := ⟨by decide, fun _ _ => rfl⟩

theorem exportable : Exportable conversions data where
  pNonce := by decide
  partnerId := rfl
  scheme := by decide
  scheme_utf8 := isUtf8_of_ascii (by simp [data])
  cmac := by decide
  url := by
    rintro _ ⟨⟩
    decide
  headers := by
    rintro _ ⟨⟩ name hname
    rw [List.mem_singleton.mp (show name ∈ [[0x58]] from hname)]
    exact isUtf8_of_ascii (by simp)

end Sample

/-- The data with its text. -/
theorem readAgain_text : ReadAgain Sample.conversions (serializeExportData Sample.conversions Sample.data) Sample.data :=
  (readAgain_serializeExportData Sample.conversions (fun _ => Sample.text)
    (fun _ => serializeExportData Sample.conversions Sample.data) Sample.roundTrips Sample.exportable rfl).2

end QtDataSync.AccountManager
