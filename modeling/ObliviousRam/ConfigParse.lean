import Mathlib.Data.List.Basic
import ObliviousRam.Defs

set_option autoImplicit false

/-!
# The configuration file

`YamlParser` (`parse/oram_parse.cc`): the entries of the file are read one after the other, and each
sets a field of the configuration, from the default one on. The file is parsed by yaml-cpp, which
is a parameter (`Yaml`); a character stands for a byte.

An `Entry` is what a well-formed line of the file is: a key that `DoParse` knows and a value of its
kind. Every entry but `Id` stores its value in the field its key names and leaves the others alone
(`Entry.doParse_entry`), so a file of distinct keys loads them all, in whatever order
(`parseEntries_loads`, `Loads.functional`). The entry `Id` is not stored in `id`: its value becomes
the one character of `crt_path`.
-/

namespace ObliviousRam

namespace OramParse

/-- `OramType`. -/
inductive OramType where
  | kLinearOram
  | kSquareOram
  | kPathOram
  | kPartitionOram
  | kCuckooOram
  | kOds
  | kInvalid
  deriving DecidableEq, Repr

/-- `oram_utils::StrToType`. -/
def strToType : String → OramType
  | "PathOram" => .kPathOram
  | "SquareRootOram" => .kSquareOram
  | "LinearOram" => .kLinearOram
  | "PartitionOram" => .kPartitionOram
  | "CuckooOram" => .kCuckooOram
  | "ODS" => .kOds
  | _ => .kInvalid

/-- `OramConfig`. -/
@[ext]
structure OramConfig where
  oramType : OramType
  blockNum : UInt64
  bucketSize : UInt64
  id : UInt32
  crtPath : String
  keyPath : String
  serverAddress : String
  serverPort : UInt32
  enableProxy : Bool
  proxyAddress : String
  proxyPort : UInt32
  logLevel : UInt8
  logFrequency : UInt8
  odictSize : UInt64
  clientCacheMaxSize : UInt64
  disableDebugging : Bool
  filepath : String
  deriving DecidableEq

/-- `default_config`. -/
def defaultConfig : OramConfig where
  oramType := .kPathOram
  blockNum := 100000
  bucketSize := 4
  id := 0
  crtPath := "./key/server.crt"
  keyPath := "./key/server.key"
  serverAddress := "0.0.0.0"
  serverPort := 1234
  enableProxy := false
  proxyAddress := ""
  proxyPort := 0
  logLevel := 2
  logFrequency := 3
  odictSize := 100000
  clientCacheMaxSize := 32
  disableDebugging := true
  filepath := ""

/-- The nodes of a YAML file, and `as`; what it throws has a text. -/
structure Yaml where
  Node : Type
  asString : Node → Except String String
  asUInt8 : Node → Except String UInt8
  asUInt32 : Node → Except String UInt32
  asSize : Node → Except String UInt64
  asBool : Node → Except String Bool

/-- `LogLevel2U8`. -/
def logLevel2U8 : String → UInt8
  | "trace" => 0
  | "debug" => 1
  | "warn" => 3
  | "error" => 4
  | "critical" => 5
  | "off" => 6
  | _ => 2

/-- The keys that `DoParse` knows. -/
inductive ConfigKey where
  | oramType
  | blockNum
  | bucketSize
  | id
  | serverCrtPath
  | serverKeyPath
  | serverAddress
  | enableProxy
  | proxyAddress
  | serverPort
  | proxyPort
  | logLevel
  | logFrequency
  | odictSize
  | clientCacheMaxSize
  | filePath
  | disableDebugging
  deriving DecidableEq, Repr

/-- What `std::string::operator=` makes of a number: it is taken for a `char`. -/
def ofNumber (n : UInt32) : String := String.singleton (Char.ofNat (n.toNat % 256))

namespace ConfigKey

/-- The key in the file. -/
def name : ConfigKey → String
  | oramType => "OramType"
  | blockNum => "BlockNum"
  | bucketSize => "BucketSize"
  | id => "Id"
  | serverCrtPath => "ServerCrtPath"
  | serverKeyPath => "ServerKeyPath"
  | serverAddress => "ServerAddress"
  | enableProxy => "EnableProxy"
  | proxyAddress => "ProxyAddress"
  | serverPort => "ServerPort"
  | proxyPort => "ProxyPort"
  | logLevel => "LogLevel"
  | logFrequency => "LogFrequency"
  | odictSize => "OdictSize"
  | clientCacheMaxSize => "ClientCacheMaxSize"
  | filePath => "FilePath"
  | disableDebugging => "DisableDebugging"

/-- The key of a name. -/
def ofName? : String → Option ConfigKey
  | "OramType" => some oramType
  | "BlockNum" => some blockNum
  | "BucketSize" => some bucketSize
  | "Id" => some id
  | "ServerCrtPath" => some serverCrtPath
  | "ServerKeyPath" => some serverKeyPath
  | "ServerAddress" => some serverAddress
  | "EnableProxy" => some enableProxy
  | "ProxyAddress" => some proxyAddress
  | "ServerPort" => some serverPort
  | "ProxyPort" => some proxyPort
  | "LogLevel" => some logLevel
  | "LogFrequency" => some logFrequency
  | "OdictSize" => some odictSize
  | "ClientCacheMaxSize" => some clientCacheMaxSize
  | "FilePath" => some filePath
  | "DisableDebugging" => some disableDebugging
  | _ => none

theorem ofName?_name (key : ConfigKey) : ofName? key.name = some key := by
  cases key <;> rfl

variable (Y : Yaml)

/-- The assignment in the branch of a key. -/
def assign (node : Y.Node) : ConfigKey → Except String (OramConfig → OramConfig)
  | oramType => (Y.asString node).map fun v c => { c with oramType := strToType v }
  | blockNum => (Y.asSize node).map fun v c => { c with blockNum := v }
  | bucketSize => (Y.asSize node).map fun v c => { c with bucketSize := v }
  | id => (Y.asUInt32 node).map fun v c => { c with crtPath := ofNumber v }
  | serverCrtPath => (Y.asString node).map fun v c => { c with crtPath := v }
  | serverKeyPath => (Y.asString node).map fun v c => { c with keyPath := v }
  | serverAddress => (Y.asString node).map fun v c => { c with serverAddress := v }
  | enableProxy => (Y.asBool node).map fun v c => { c with enableProxy := v }
  | proxyAddress => (Y.asString node).map fun v c => { c with proxyAddress := v }
  | serverPort => (Y.asUInt32 node).map fun v c => { c with serverPort := v }
  | proxyPort => (Y.asUInt32 node).map fun v c => { c with proxyPort := v }
  | logLevel => (Y.asString node).map fun v c => { c with logLevel := logLevel2U8 v.toLower }
  | logFrequency => (Y.asUInt8 node).map fun v c => { c with logFrequency := v }
  | odictSize => (Y.asSize node).map fun v c => { c with odictSize := v }
  | clientCacheMaxSize => (Y.asSize node).map fun v c => { c with clientCacheMaxSize := v }
  | filePath => (Y.asString node).map fun v c => { c with filepath := v }
  | disableDebugging => (Y.asBool node).map fun v c => { c with disableDebugging := v }

end ConfigKey

/-- An exception that nothing catches. -/
def uncaught {α : Type} (m : Except String α) : Prog Exit OramConfig α :=
  match m with
  | .ok a => pure a
  | .error what => Prog.throw (.abort what)

/-- `oram_utils::TryExec`, of an assignment. -/
def tryExec (target : Except String (OramConfig → OramConfig)) : Prog Exit OramConfig Unit :=
  match target with
  | .ok f => Prog.modify f
  | .error what => fail .kUnknownError what "TryExec"

/-- `DoParse`. The line of the log converts the value outside of `TryExec`. -/
def doParse (Y : Yaml) (entry : Y.Node × Y.Node) : Prog Exit OramConfig Unit := do
  let key ← uncaught (Y.asString entry.1)
  let _ ← uncaught (Y.asString entry.2)
  match ConfigKey.ofName? key with
  | some k => tryExec (k.assign Y entry.2)
  | none => fail .kInvalidArgument ("Unknown configuration key: `" ++ key ++ "`.") ""

/-- The loop of `Parse`: a status that is not `OK` ends the process. -/
def parseEntries (Y : Yaml) : List (Y.Node × Y.Node) → Prog Exit OramConfig Unit
  | [] => pure ()
  | entry :: entries => do
    checkStatus "exit(1)" (doParse Y entry)
    parseEntries Y entries

/-- The configuration that the entries of a file leave behind. -/
def parse (Y : Yaml) (entries : List (Y.Node × Y.Node)) : Except Exit Unit × OramConfig :=
  parseEntries Y entries defaultConfig

/-! ## Fields and entries

A key names a field, and an entry stores its value there. `assign` is the chain of
branches of the source; that each of them is about the field of its key has to be shown,
and for `Id` it is not so. -/

/-- What a field holds. -/
inductive FieldValue where
  | type : OramType → FieldValue
  | size : UInt64 → FieldValue
  | word : UInt32 → FieldValue
  | byte : UInt8 → FieldValue
  | flag : Bool → FieldValue
  | text : String → FieldValue
  deriving DecidableEq

namespace ConfigKey

/-- The field that a key names. -/
def field (c : OramConfig) : ConfigKey → FieldValue
  | oramType => .type c.oramType
  | blockNum => .size c.blockNum
  | bucketSize => .size c.bucketSize
  | id => .word c.id
  | serverCrtPath => .text c.crtPath
  | serverKeyPath => .text c.keyPath
  | serverAddress => .text c.serverAddress
  | enableProxy => .flag c.enableProxy
  | proxyAddress => .text c.proxyAddress
  | serverPort => .word c.serverPort
  | proxyPort => .word c.proxyPort
  | logLevel => .byte c.logLevel
  | logFrequency => .byte c.logFrequency
  | odictSize => .size c.odictSize
  | clientCacheMaxSize => .size c.clientCacheMaxSize
  | filePath => .text c.filepath
  | disableDebugging => .flag c.disableDebugging

/-- The value that a node stands for under a key. -/
def convert (Y : Yaml) (node : Y.Node) : ConfigKey → Except String FieldValue
  | oramType => (Y.asString node).map fun v => .type (strToType v)
  | blockNum => (Y.asSize node).map .size
  | bucketSize => (Y.asSize node).map .size
  | id => (Y.asUInt32 node).map .word
  | serverCrtPath => (Y.asString node).map .text
  | serverKeyPath => (Y.asString node).map .text
  | serverAddress => (Y.asString node).map .text
  | enableProxy => (Y.asBool node).map .flag
  | proxyAddress => (Y.asString node).map .text
  | serverPort => (Y.asUInt32 node).map .word
  | proxyPort => (Y.asUInt32 node).map .word
  | logLevel => (Y.asString node).map fun v => .byte (logLevel2U8 v.toLower)
  | logFrequency => (Y.asUInt8 node).map .byte
  | odictSize => (Y.asSize node).map .size
  | clientCacheMaxSize => (Y.asSize node).map .size
  | filePath => (Y.asString node).map .text
  | disableDebugging => (Y.asBool node).map .flag

end ConfigKey

/-- The seventeen keys name all the fields. -/
theorem ext_field {c c' : OramConfig} (h : ∀ key : ConfigKey, key.field c = key.field c') :
    c = c' := by
  apply OramConfig.ext
  · exact FieldValue.type.inj (h .oramType)
  · exact FieldValue.size.inj (h .blockNum)
  · exact FieldValue.size.inj (h .bucketSize)
  · exact FieldValue.word.inj (h .id)
  · exact FieldValue.text.inj (h .serverCrtPath)
  · exact FieldValue.text.inj (h .serverKeyPath)
  · exact FieldValue.text.inj (h .serverAddress)
  · exact FieldValue.word.inj (h .serverPort)
  · exact FieldValue.flag.inj (h .enableProxy)
  · exact FieldValue.text.inj (h .proxyAddress)
  · exact FieldValue.word.inj (h .proxyPort)
  · exact FieldValue.byte.inj (h .logLevel)
  · exact FieldValue.byte.inj (h .logFrequency)
  · exact FieldValue.size.inj (h .odictSize)
  · exact FieldValue.size.inj (h .clientCacheMaxSize)
  · exact FieldValue.flag.inj (h .disableDebugging)
  · exact FieldValue.text.inj (h .filePath)

theorem except_map_eq_ok {α β : Type} {m : Except String α} {f : α → β} {b : β}
    (h : m.map f = .ok b) : ∃ a, m = .ok a ∧ f a = b := by
  cases m with
  | error e => cases h
  | ok a => exact ⟨a, rfl, Except.ok.inj h⟩

/-- The branch of a key stores the value in the field that the key names, and nothing else. -/
theorem ConfigKey.assign_of_convert {Y : Yaml} {node : Y.Node} {key : ConfigKey} {v : FieldValue}
    (hid : key ≠ .id) (h : key.convert Y node = .ok v) :
    ∃ f, key.assign Y node = .ok f ∧
      ∀ c k, ConfigKey.field (f c) k = if k = key then v else k.field c := by
  cases key
  case id => exact absurd rfl hid
  all_goals
    obtain ⟨a, ha, rfl⟩ := except_map_eq_ok h
    refine ⟨_, by rw [assign, ha]; rfl, fun c k => ?_⟩
    cases k <;> rfl

/-- An entry of a file: a key that `DoParse` knows, and a value of the kind of its field. (Every
scalar is a string as well, which the log prints.) -/
structure Entry (Y : Yaml) where
  keyNode : Y.Node
  valueNode : Y.Node
  key : ConfigKey
  text : String
  value : FieldValue
  key_eq : Y.asString keyNode = .ok key.name
  text_eq : Y.asString valueNode = .ok text
  value_eq : key.convert Y valueNode = .ok value

namespace Entry

variable {Y : Yaml}

/-- What the iterator points to. -/
def nodes (e : Entry Y) : Y.Node × Y.Node := (e.keyNode, e.valueNode)

/-- For such an entry `DoParse` is the one assignment. -/
theorem doParse_nodes (e : Entry Y) (c : OramConfig) :
    doParse Y e.nodes c = tryExec (e.key.assign Y e.valueNode) c := by
  rw [doParse, nodes, e.key_eq, e.text_eq, uncaught, uncaught, Prog.pure_bind, Prog.pure_bind,
    ConfigKey.ofName?_name]

/-- The step of an entry other than `Id`. -/
theorem doParse_entry (e : Entry Y) (hid : e.key ≠ .id) (c : OramConfig) :
    ∃ c', doParse Y e.nodes c = (.ok (), c') ∧
      ∀ k, ConfigKey.field c' k = if k = e.key then e.value else k.field c := by
  obtain ⟨f, hf, hfield⟩ := ConfigKey.assign_of_convert hid e.value_eq
  refine ⟨f c, ?_, hfield c⟩
  rw [doParse_nodes, hf, tryExec, Prog.modify_apply]

/-- The step of the entry `Id`: `id` keeps its value, and `crt_path` is one character. -/
theorem doParse_id (e : Entry Y) (hid : e.key = .id) (c : OramConfig) :
    ∃ n, doParse Y e.nodes c = (.ok (), { c with crtPath := ofNumber n }) := by
  have hvalue := e.value_eq
  rw [hid] at hvalue
  obtain ⟨n, hn, -⟩ := except_map_eq_ok hvalue
  refine ⟨n, ?_⟩
  rw [doParse_nodes, hid, ConfigKey.assign, hn]
  rfl

end Entry

/-! ## Files

Two entries of different keys do not interfere, so the order of a file makes no
difference, as long as each entry is about a field of its own. The entry `Id` takes the
field of `ServerCrtPath`. -/

section

variable {Y : Yaml}

/-- Entries are read one after the other. -/
theorem parseEntries_append (before after : List (Y.Node × Y.Node)) {c c' : OramConfig}
    (h : parseEntries Y before c = (.ok (), c')) :
    parseEntries Y (before ++ after) c = parseEntries Y after c' := by
  induction before generalizing c with
  | nil =>
    cases h
    rfl
  | cons entry before ih =>
    obtain ⟨_, c₁, hstep, hrest⟩ := Prog.bind_eq_ok h
    rw [List.cons_append, parseEntries, Prog.bind_ok hstep]
    exact ih hrest

/-- `c'` is `c` with the entries stored: each in the field its key names. -/
structure Loads (entries : List (Entry Y)) (c c' : OramConfig) : Prop where
  value : ∀ e ∈ entries, e.key.field c' = e.value
  others : ∀ key ∉ entries.map Entry.key, key.field c' = key.field c

namespace Loads

variable {entries other : List (Entry Y)} {c c' c'' : OramConfig}

theorem perm (h : Loads entries c c') (hperm : other.Perm entries) : Loads other c c' where
  value e he := h.value e (hperm.subset he)
  others key hkey := h.others key fun hmem => hkey ((hperm.map Entry.key).symm.subset hmem)

/-- The entries determine the configuration. -/
theorem functional (h : Loads entries c c') (h' : Loads entries c c'') : c' = c'' := by
  refine ext_field fun key => ?_
  by_cases hkey : key ∈ entries.map Entry.key
  · obtain ⟨e, he, rfl⟩ := List.mem_map.mp hkey
    rw [h.value e he, h'.value e he]
  · rw [h.others key hkey, h'.others key hkey]

end Loads

/-- A run over entries with distinct keys, none of them `Id`, stores them all. -/
theorem parseEntries_loads {entries : List (Entry Y)} (hid : ∀ e ∈ entries, e.key ≠ .id)
    (hkeys : (entries.map Entry.key).Nodup) (c : OramConfig) :
    ∃ c', parseEntries Y (entries.map Entry.nodes) c = (.ok (), c') ∧ Loads entries c c' := by
  induction entries generalizing c with
  | nil => exact ⟨c, rfl, List.forall_mem_nil _, fun _ _ => rfl⟩
  | cons e entries ih =>
    rw [List.map_cons, List.nodup_cons] at hkeys
    obtain ⟨c₁, hstep, hfield⟩ := e.doParse_entry (hid e List.mem_cons_self) c
    obtain ⟨c', hrun, hloads⟩ := ih (fun e' he' => hid e' (List.mem_cons_of_mem e he')) hkeys.2 c₁
    refine ⟨c', ?_, ?_, ?_⟩
    · rw [List.map_cons, parseEntries, Prog.bind_ok (checkStatus_ok hstep)]
      exact hrun
    · intro e' he'
      rcases List.mem_cons.mp he' with rfl | he'
      · -- no later entry has the key of the first
        rw [hloads.others _ hkeys.1, hfield, if_pos rfl]
      · exact hloads.value e' he'
    · intro key hkey
      rw [List.map_cons, List.mem_cons, not_or] at hkey
      rw [hloads.others key hkey.2, hfield, if_neg hkey.1]

/-- The entries are independent: in every order they leave the same configuration behind, which
holds the value of each in the field its key names, and no entry changes another field on the
way. -/
structure Independent (entries : List (Entry Y)) (config : OramConfig) : Prop where
  order : ∀ other : List (Entry Y), other.Perm entries →
    parse Y (other.map Entry.nodes) = (.ok (), config)
  value : ∀ e ∈ entries, e.key.field config = e.value
  only : ∀ before e after, List.Perm (before ++ e :: after) entries → ∀ key, key ≠ e.key →
    key.field (parse Y ((before ++ [e]).map Entry.nodes)).2 =
      key.field (parse Y (before.map Entry.nodes)).2

variable {entries : List (Entry Y)}

/-- The certificate path of the default configuration is not a single character. -/
theorem ofNumber_ne_crtPath (n : UInt32) : ofNumber n ≠ defaultConfig.crtPath := by
  intro h
  have hlen : (ofNumber n).length = defaultConfig.crtPath.length := congrArg String.length h
  rw [ofNumber, String.length_singleton] at hlen
  exact absurd hlen (by decide)

/-- An entry `Id` that comes first overwrites the certificate path. -/
theorem not_independent_of_id {config : OramConfig} {e : Entry Y} (he : e ∈ entries)
    (hid : e.key = .id) : ¬ Independent entries config := by
  intro h
  obtain ⟨l, r, hsplit⟩ := List.append_of_mem he
  have hperm : List.Perm ([] ++ e :: (l ++ r)) entries := by
    rw [hsplit]
    exact List.perm_middle.symm
  have hcrt := h.only [] e (l ++ r) hperm .serverCrtPath (by rw [hid]; exact nofun)
  obtain ⟨n, hstep⟩ := e.doParse_id hid defaultConfig
  have hrun : parse Y [e.nodes] = (.ok (), { defaultConfig with crtPath := ofNumber n }) :=
    Prog.bind_ok (checkStatus_ok hstep)
  rw [List.nil_append, List.map_singleton, hrun] at hcrt
  exact ofNumber_ne_crtPath n (FieldValue.text.inj hcrt)

/-- Without the entry `Id`, distinct keys are independent. -/
theorem independent_of_ne_id (hkeys : (entries.map Entry.key).Nodup)
    (hid : ∀ e ∈ entries, e.key ≠ .id) : ∃ config, Independent entries config := by
  obtain ⟨config, -, hloads⟩ := parseEntries_loads hid hkeys defaultConfig
  refine ⟨config, ?_, hloads.value, ?_⟩
  · intro other hperm
    obtain ⟨c', hrun, hloads'⟩ := parseEntries_loads (fun e he => hid e (hperm.subset he))
      ((hperm.map Entry.key).nodup_iff.mpr hkeys) defaultConfig
    rw [parse, hrun, (hloads'.perm hperm.symm).functional hloads]
  · intro before e after hperm key hkey
    have hkeys' := (hperm.map Entry.key).nodup_iff.mpr hkeys
    rw [List.map_append] at hkeys'
    obtain ⟨c, hbefore, -⟩ := parseEntries_loads
      (fun e' he' => hid e' (hperm.subset (List.mem_append_left _ he')))
      (List.nodup_append.mp hkeys').1 defaultConfig
    obtain ⟨c', hstep, hfield⟩ := e.doParse_entry
      (hid e (hperm.subset (List.mem_append_right _ List.mem_cons_self))) c
    have hlast : parseEntries Y [e.nodes] c = (.ok (), c') :=
      Prog.bind_ok (checkStatus_ok hstep)
    rw [parse, parse, List.map_append, parseEntries_append _ _ hbefore, hbefore,
      List.map_singleton, hlast, hfield, if_neg hkey]

/-- Entries with distinct keys are independent exactly when none of them is the entry `Id`. -/
theorem independent_iff (hkeys : (entries.map Entry.key).Nodup) :
    (∃ config, Independent entries config) ↔ ∀ e ∈ entries, e.key ≠ .id := by
  constructor
  · rintro ⟨config, h⟩ e he hid
    exact not_independent_of_id he hid h
  · exact independent_of_ne_id hkeys

/-- A file whose nodes are plain words. -/
def wordYaml : Yaml where
  Node := List Char
  asString w := .ok (String.ofList w)
  asUInt8 w := (number (2 ^ 8) w).map UInt8.ofNat
  asUInt32 w := (number (2 ^ 32) w).map UInt32.ofNat
  asSize w := (number (2 ^ 64) w).map UInt64.ofNat
  asBool w := if w = ['t', 'r', 'u', 'e'] then .ok true
    else if w = ['f', 'a', 'l', 's', 'e'] then .ok false
    else .error "bad conversion"
where
  /-- The number that a word of digits stands for, below a bound. -/
  number (bound : ℕ) (w : List Char) : Except String ℕ :=
    let n := w.foldl (fun n d => 10 * n + (d.toNat - '0'.toNat)) 0
    if w ≠ [] ∧ w.all Char.isDigit ∧ n < bound then .ok n else .error "bad conversion"

/-- The line `ServerCrtPath: a.crt`. -/
def crtLine : Entry wordYaml where
  keyNode := ConfigKey.serverCrtPath.name.toList
  valueNode := ['a', '.', 'c', 'r', 't']
  key := .serverCrtPath
  text := "a.crt"
  value := .text "a.crt"
  key_eq := rfl
  text_eq := rfl
  value_eq := rfl

/-- The line `ServerPort: 80`. -/
def portLine : Entry wordYaml where
  keyNode := ConfigKey.serverPort.name.toList
  valueNode := ['8', '0']
  key := .serverPort
  text := "80"
  value := .word 80
  key_eq := rfl
  text_eq := rfl
  value_eq := rfl

/-- The line `Id: 65`. -/
def idLine : Entry wordYaml where
  keyNode := ConfigKey.id.name.toList
  valueNode := ['6', '5']
  key := .id
  text := "65"
  value := .word 65
  key_eq := rfl
  text_eq := rfl
  value_eq := rfl

theorem independent_iff_two :
    (∃ config, Independent [crtLine, portLine] config) ↔
      ∀ e ∈ [crtLine, portLine], e.key ≠ .id :=
  independent_iff (by decide)

/-- With `Id` next to `ServerCrtPath`, the later of the two sets the certificate path, and the id
stays `0`. -/
theorem id_not_independent :
    (parse wordYaml ([crtLine, idLine].map Entry.nodes)).2 = { defaultConfig with crtPath := "A" } ∧
      (parse wordYaml ([idLine, crtLine].map Entry.nodes)).2 =
        { defaultConfig with crtPath := "a.crt" } ∧
      ([crtLine, idLine].map Entry.key).Nodup ∧
      ¬ ∃ config, Independent [crtLine, idLine] config := by
  refine ⟨rfl, rfl, by decide, ?_⟩
  rintro ⟨config, h⟩
  exact not_independent_of_id (List.mem_cons_of_mem _ List.mem_cons_self) rfl h

end

end OramParse

end ObliviousRam
