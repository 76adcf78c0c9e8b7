import MetricStore.Common.Regexp

/-!
# Alertmanager configurations

The configuration of the alertmanagers of a rule manager (`AlertmanagerConfigs` of the
vendored Prometheus, `config/config.go`), how it is written as YAML and JSON
(`pkg/rulesclient/manager_config.go`), and the expression that tells an inline
certificate from a file name (`pkg/rulesclient/rulesclient.go`, line 16).

A YAML or JSON text is represented by the value that it decodes to: every field comes
back as it was, except that a non-empty `Secret` is written as `<secret>`. The fields of
service discovery are kept as one text and the list of those that are secrets.

* `written_eq_self_iff`: a configuration comes back from YAML exactly when its secrets
  are empty or read `<secret>`.
* `certificateRegexp_getLast`: how an inline certificate ends.
-/

namespace MetricStore.Rules

open MetricStore.Common MetricStore.Common.Regexp

/-! ## Configurations -/

/-- `config.Secret`. -/
abbrev Secret := Bytes

/-- What `Secret.MarshalYAML` writes. -/
def Secret.marshalYAML (s : Secret) : Bytes := if s = [] then [] else lit "<secret>"

/-- `config.BasicAuth`. -/
structure BasicAuth where
  username : Bytes
  password : Secret
  passwordFile : Bytes
  deriving DecidableEq

/-- `config.TLSConfig`. The first three fields are file names, or certificates that are
    given inline. -/
structure TLSConfig where
  caFile : Bytes
  certFile : Bytes
  keyFile : Bytes
  serverName : Bytes
  insecureSkipVerify : Bool
  deriving DecidableEq

/-- `config.HTTPClientConfig`. -/
structure HTTPClientConfig where
  basicAuth : Option BasicAuth
  bearerToken : Secret
  bearerTokenFile : Bytes
  proxyURL : Bytes
  tlsConfig : TLSConfig
  deriving DecidableEq

/-- `config.ServiceDiscoveryConfig`: the settings as one text, and those that are
    secrets. -/
structure ServiceDiscoveryConfig where
  settings : Bytes
  secrets : List Secret
  deriving DecidableEq

/-- `config.AlertmanagerConfig`. -/
structure AlertmanagerConfig where
  serviceDiscovery : ServiceDiscoveryConfig
  httpClient : HTTPClientConfig
  scheme : Bytes
  pathPrefix : Bytes
  timeout : ℤ
  apiVersion : Bytes
  relabelConfigs : List Bytes
  deriving DecidableEq

/-- `config.AlertmanagerConfigs`: distinct alertmanagers, none of them nil. -/
abbrev AlertmanagerConfigs := List AlertmanagerConfig

/-! ## YAML and JSON -/

/-- A basic authentication as it comes back from YAML. -/
def BasicAuth.written (a : BasicAuth) : BasicAuth :=
  { a with password := Secret.marshalYAML a.password }

/-- A configuration as it comes back from YAML. -/
def AlertmanagerConfig.written (c : AlertmanagerConfig) : AlertmanagerConfig :=
  { c with
    serviceDiscovery := ⟨c.serviceDiscovery.settings,
      c.serviceDiscovery.secrets.map Secret.marshalYAML⟩
    httpClient := { c.httpClient with
      basicAuth := c.httpClient.basicAuth.map BasicAuth.written
      bearerToken := Secret.marshalYAML c.httpClient.bearerToken } }

/-- A YAML or JSON text, by the value it decodes to. -/
inductive Document
  | null
  | alertmanagers (configs : AlertmanagerConfigs)
  deriving DecidableEq

/-- `yaml.Marshal` of a pointer to configurations. -/
def yamlMarshal : Option AlertmanagerConfigs → Document
  | none => .null
  | some configs => .alertmanagers (configs.map AlertmanagerConfig.written)

/-- `yaml.Unmarshal` into configurations. -/
def yamlUnmarshal : Document → AlertmanagerConfigs
  | .null => []
  | .alertmanagers configs => configs

/-- `ManagerConfig` (`manager_config.go`, lines 25–28). -/
structure ManagerConfig where
  id : Bytes
  alertmanagers : Option AlertmanagerConfigs
  deriving DecidableEq

/-- `managerData` (lines 16–23): the body of a request. -/
structure Payload where
  id : Bytes
  alertmanagers : Option Document
  deriving DecidableEq

/-- `ManagerConfig.ToJSON` (lines 86–110). -/
def ManagerConfig.toJSON (m : ManagerConfig) : Payload :=
  ⟨m.id, some (yamlMarshal m.alertmanagers)⟩

/-- `ManagerConfigFromJSON` (lines 112–139). -/
def managerConfigFromJSON (body : Payload) : ManagerConfig where
  id := body.id
  alertmanagers :=
    match body.alertmanagers with
    | none => some []
    | some document => some (yamlUnmarshal document)

/-! ## Secrets -/

/-- The secrets of a configuration. -/
def AlertmanagerConfig.secrets (c : AlertmanagerConfig) : List Secret :=
  (c.httpClient.basicAuth.toList.map BasicAuth.password ++ [c.httpClient.bearerToken]) ++
    c.serviceDiscovery.secrets

/-- A secret that YAML does not hide. -/
def Legible (s : Secret) : Prop := s = [] ∨ s = lit "<secret>"

instance (s : Secret) : Decidable (Legible s) := inferInstanceAs (Decidable (_ ∨ _))

theorem marshalYAML_eq_self_iff (s : Secret) : s.marshalYAML = s ↔ Legible s := by
  unfold Secret.marshalYAML Legible
  by_cases hs : s = []
  · simp [hs]
  · rw [if_neg hs]
    simp [hs, eq_comm]

theorem map_eq_self_iff {α : Type} (f : α → α) (l : List α) :
    l.map f = l ↔ ∀ x ∈ l, f x = x := by
  simpa using List.map_inj_left (l := l) (f := f) (g := id)

/-- **What comes back from YAML** is the configuration, exactly when its secrets are
    legible. -/
theorem written_eq_self_iff (c : AlertmanagerConfig) :
    c.written = c ↔ ∀ s ∈ c.secrets, Legible s := by
  obtain ⟨⟨settings, secrets⟩, ⟨basicAuth, bearerToken, _, _, _⟩, _, _, _, _, _⟩ := c
  have hauth : basicAuth.map BasicAuth.written = basicAuth ↔
      ∀ s ∈ basicAuth.toList.map BasicAuth.password, Legible s := by
    cases basicAuth with
    | none => simp
    | some a =>
      obtain ⟨username, password, passwordFile⟩ := a
      simp [BasicAuth.written, marshalYAML_eq_self_iff]
  have hsd : secrets.map Secret.marshalYAML = secrets ↔ ∀ s ∈ secrets, Legible s := by
    rw [map_eq_self_iff]
    simp only [marshalYAML_eq_self_iff]
  simp only [AlertmanagerConfig.written, AlertmanagerConfig.secrets,
    AlertmanagerConfig.mk.injEq, ServiceDiscoveryConfig.mk.injEq, HTTPClientConfig.mk.injEq,
    and_true, true_and, hauth, hsd, marshalYAML_eq_self_iff, List.forall_mem_append,
    List.forall_mem_singleton]
  tauto

/-! ## Inline certificates -/

/-- `CertificateRegexp`. -/
def certificateRegexp : Matcher :=
  literal (lit "-----BEGIN ") (dotPlus (literal (lit "-----") (anyStar
    (literal (lit "-----END ") (dotPlus (literal (lit "-----") optSpaceEnd))))))

/-- A certificate ends with dashes, or with dashes and a space. -/
theorem certificateRegexp_getLast {s : Bytes} (h : certificateRegexp s = true) :
    ∃ b ∈ (45 :: spaces), s.getLast? = some b := by
  have hcovers : Covers certificateRegexp (literal (lit "-----") optSpaceEnd) :=
    (literal_covers _ _).trans <| (dotPlus_covers _).trans <| (literal_covers _ _).trans <|
      (anyStar_covers _).trans <| (literal_covers _ _).trans (dotPlus_covers _)
  obtain ⟨t, ⟨front, rfl⟩, ht⟩ := hcovers s h
  rw [literal, Bool.and_eq_true, List.isPrefixOf_iff_prefix] at ht
  obtain ⟨⟨rest, rfl⟩, hrest⟩ := ht
  rw [List.drop_left] at hrest
  have hdashes : lit "-----" = [45, 45, 45, 45, 45] := by decide
  rw [hdashes, ← List.append_assoc]
  rcases rest with _ | ⟨b, _ | ⟨b', rest⟩⟩
  · exact ⟨45, by simp, by simp⟩
  · refine ⟨b, List.mem_cons_of_mem _ ?_, by simp⟩
    simpa [optSpaceEnd] using hrest
  · cases hrest

end MetricStore.Rules
