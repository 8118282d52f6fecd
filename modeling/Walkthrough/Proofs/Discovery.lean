import Mathlib.Data.List.Forall2
import Walkthrough.Discovery
import Walkthrough.Proofs.Atomic
import Walkthrough.Proofs.Json
import Walkthrough.Proofs.Rendering

/-!
# What a server says about itself

Discovery succeeds exactly when the server answers with metadata that has the required entries, and
keeps of it the endpoints. A template has those wherever it names them, before any default and any
variable (`Server.discover_exactly`).
-/

namespace Walkthrough

open Walkthrough.Checks

variable {name v : String} {metadata : Record Value} {endpoints : Record String}

/-! ## Metadata -/

/-- The answer has arrived with its body and a status of success, and the body is a JSON object with
the entries. -/
def Outcome.Carries (o : Outcome) (metadata : Record Value) : Prop :=
  ∃ r body, o = .answered r ∧ r.body = .ok body ∧ 200 ≤ r.status ∧ r.status ≤ 299 ∧
    Json.read? body = some (.mapping metadata)

theorem Outcome.Carries.unique {o : Outcome} {other : Record Value} (carries : o.Carries metadata)
    (again : o.Carries other) : other = metadata := by
  obtain ⟨r, body, rfl, arrived, -, -, read⟩ := carries
  obtain ⟨_, _, ⟨⟩, arrivedToo, -, -, readToo⟩ := again
  cases arrived.symm.trans arrivedToo
  cases read.symm.trans readToo
  rfl

theorem Exchange.jsonOf_eq_mapping_iff {body : String} :
    jsonOf body = some (.mapping metadata) ↔ Json.read? body = some (.mapping metadata) := by
  unfold jsonOf
  constructor
  · intro h
    split at h
    · cases h
    · exact h
  · intro read
    rw [if_neg (by simp [Json.visible_of_read? read]), read]

namespace Server

variable {d : Server} {url : String}

/-- The required entries are there, and are texts that are not empty. -/
def Complete (metadata : Record Value) : Prop :=
  ∀ name ∈ ["issuer", "registration_endpoint", "authorization_endpoint", "token_endpoint"],
    ∃ v, metadata.get? name = some (.text v) ∧ v ≠ ""

/-- The endpoints are the entries of the metadata that have the name of an endpoint and are texts that
are not empty. -/
def Lists (endpoints : Record String) (metadata : Record Value) : Prop :=
  endpoints.names.Nodup ∧ ∀ name v, endpoints.get? name = some v ↔
    metadata.get? name = some (.text v) ∧ v ≠ "" ∧
      (name = "issuer" ∨ name = "jwks_uri" ∨ ∃ front, name = front ++ "_endpoint")

theorem isEndpoint_iff : isEndpoint name = true ↔
    name = "issuer" ∨ name = "jwks_uri" ∨ ∃ front, name = front ++ "_endpoint" := by
  have ending : Text.endsWith name "_endpoint" = true ↔ ∃ front, name = front ++ "_endpoint" := by
    rw [Text.endsWith, List.isSuffixOf_iff_suffix]
    constructor
    · rintro ⟨front, split⟩
      refine ⟨String.ofList front, ?_⟩
      rw [← String.toList_inj, String.toList_append, String.toList_ofList, split]
    · rintro ⟨front, rfl⟩
      exact ⟨front.toList, String.toList_append.symm⟩
  rw [isEndpoint, Bool.or_eq_true, Bool.or_eq_true, ending, beq_iff_eq, beq_iff_eq, or_assoc, or_comm,
    or_assoc]

theorem text?_eq_some_iff {x : Value} : x.text? = some v ↔ x = .text v := by
  cases x <;> simp [Value.text?]

theorem textAt?_eq_some_iff :
    textAt? metadata name = some v ↔ metadata.get? name = some (.text v) ∧ v ≠ "" := by
  have same : textAt? metadata name = Session.filled? ((metadata.get? name).bind Value.text?) := rfl
  rw [same, Session.filled?_eq_some_iff, Option.bind_eq_some_iff]
  simp only [text?_eq_some_iff, exists_eq_right]

theorem endpoint?_eq_some_iff {e : String × Value} :
    endpoint? e = some (name, v) ↔ e = (name, .text v) ∧ v ≠ "" ∧ isEndpoint name = true := by
  obtain ⟨key, x⟩ := e
  cases x with
  | text s =>
    simp only [endpoint?, Value.text?, Option.ite_none_right_eq_some, Bool.and_eq_true,
      Bool.not_eq_true', String.isEmpty_eq_false_iff, Option.some.injEq, Prod.mk.injEq,
      Value.text.injEq]
    constructor
    · rintro ⟨⟨kind, filled⟩, rfl, rfl⟩
      exact ⟨⟨rfl, rfl⟩, filled, kind⟩
    · rintro ⟨⟨rfl, rfl⟩, filled, kind⟩
      exact ⟨⟨kind, filled⟩, rfl, rfl⟩
  | _ => simp [endpoint?, Value.text?]

theorem complete_iff :
    Complete metadata ↔ (required.all fun name => (textAt? metadata name).isSome) = true := by
  simp only [Complete, ← textAt?_eq_some_iff, ← Option.isSome_iff_exists, List.all_eq_true]
  rfl

/-- The metadata is accepted exactly when it is complete. -/
theorem ofMetadata_ok_iff : (∃ d, ofMetadata metadata = .ok d) ↔ Complete metadata := by
  have nothing : (required.filter fun name => (textAt? metadata name).isNone).isEmpty = true ↔
      Complete metadata := by
    rw [complete_iff, List.isEmpty_iff, List.filter_eq_nil_iff, List.all_eq_true]
    simp only [Bool.not_eq_true, Option.isNone_eq_false_iff]
  rw [← nothing, ofMetadata]
  split
  next none => simp [none]
  next some => simp [some]

theorem endpoints_of_ofMetadata (accepted : ofMetadata metadata = .ok d) :
    d.endpoints = metadata.filterMap endpoint? := by
  unfold ofMetadata at accepted
  dsimp only at accepted
  split at accepted
  · cases accepted
    rfl
  · cases accepted

theorem names_endpoints_sublist (metadata : Record Value) :
    (Record.names (metadata.filterMap endpoint?)).Sublist metadata.names := by
  induction metadata with
  | nil => exact .slnil
  | cons e metadata ih =>
    cases kept : endpoint? e with
    | none =>
      rw [List.filterMap_cons_none kept]
      exact ih.cons e.1
    | some out =>
      obtain ⟨rfl, -⟩ := endpoint?_eq_some_iff.mp kept
      rw [List.filterMap_cons_some kept]
      exact ih.cons_cons out.1

theorem lists_endpoints (distinct : metadata.names.Nodup) :
    Lists (metadata.filterMap endpoint?) metadata := by
  have kept := distinct.sublist (names_endpoints_sublist metadata)
  refine ⟨kept, fun name v => ?_⟩
  rw [Record.get?_eq_some_iff kept, Record.get?_eq_some_iff distinct, List.mem_filterMap,
    ← isEndpoint_iff]
  simp only [endpoint?_eq_some_iff]
  constructor
  · rintro ⟨_, mem, rfl, filled, kind⟩
    exact ⟨mem, filled, kind⟩
  · rintro ⟨mem, filled, kind⟩
    exact ⟨_, mem, rfl, filled, kind⟩

/-! ## Answers -/

variable {serverUrl : String} {limit : Number} {events : List Event} {o : Outcome}
variable {out : Except DiscoveryFault Server}

theorem ofResponse_ok_iff {r : Except TransportFault Response} :
    ofResponse url r = .ok d ↔ ∃ response metadata, r = .ok response ∧
      Response.isSuccess response.status = true ∧ response.json = some (.mapping metadata) ∧
        ofMetadata metadata = .ok d := by
  constructor
  · intro accepted
    unfold ofResponse at accepted
    split at accepted
    · cases accepted
    next response =>
      split at accepted
      · cases accepted
      next success =>
        split at accepted
        next metadata json => exact ⟨response, metadata, rfl, by simpa using success, json, accepted⟩
        · cases accepted
  · rintro ⟨response, metadata, rfl, success, json, accepted⟩
    simp only [ofResponse, success, Bool.not_true, Bool.false_eq_true, if_false, json, accepted]

theorem receive_ok_iff {title : String} {response : Response} :
    Exchange.receive title limit o = .ok response ↔ ∃ r body, o = .answered r ∧ r.body = .ok body ∧
      response = ⟨r.status, r.statusText, Exchange.headersOf r.headers, body, Exchange.jsonOf body⟩ := by
  constructor
  · intro received
    unfold Exchange.receive at received
    split at received
    · cases received
    next r =>
      split at received
      · cases received
      next body arrived => exact ⟨r, body, rfl, arrived, (Except.ok.inj received).symm⟩
  · rintro ⟨r, body, rfl, arrived, rfl⟩
    simp only [Exchange.receive, arrived]

/-- A server is described by an answer that carries metadata of it. -/
theorem ofResponse_receive_iff {title : String} :
    ofResponse url (Exchange.receive title limit o) = .ok d ↔
      ∃ metadata, o.Carries metadata ∧ ofMetadata metadata = .ok d := by
  rw [ofResponse_ok_iff]
  constructor
  · rintro ⟨response, metadata, received, success, json, accepted⟩
    obtain ⟨r, body, rfl, arrived, rfl⟩ := receive_ok_iff.mp received
    obtain ⟨low, high⟩ := Response.isSuccess_iff.mp success
    exact ⟨metadata, ⟨r, body, rfl, arrived, low, high, Exchange.jsonOf_eq_mapping_iff.mp json⟩,
      accepted⟩
  · rintro ⟨metadata, ⟨r, body, rfl, arrived, low, high, read⟩, accepted⟩
    exact ⟨_, metadata, receive_ok_iff.mpr ⟨r, body, rfl, arrived, rfl⟩,
      Response.isSuccess_iff.mpr ⟨low, high⟩, Exchange.jsonOf_eq_mapping_iff.mpr read, accepted⟩

/-- One request is sent, unless the time limit cannot be set. -/
theorem runs_discover (run : (discover serverUrl limit).Runs events out) :
    (¬Exchange.Settable limit ∧ exchanges events = [] ∧ ∃ f, out = .error f) ∨
      ∃ o, exchanges events = [((metadataRequest serverUrl).wire, o)] ∧
        out = ofResponse (metadataUrl serverUrl)
          (Exchange.receive (metadataRequest serverUrl).title limit o) := by
  obtain ⟨sending, _, reply, rfl, exchanged, ended⟩ := Talk.runs_bind_iff.mp run
  obtain ⟨rfl, rfl⟩ := Talk.runs_done_iff.mp ended
  rw [List.append_nil]
  rcases runs_exchange exchanged with ⟨unset, none, f, rfl⟩ | ⟨-, o, one, rfl⟩
  · exact Or.inl ⟨unset, none, .transport f, rfl⟩
  · exact Or.inr ⟨o, one, rfl⟩

/-- What is accepted came in as complete metadata, and its endpoints are those of the metadata. -/
theorem carried_of_discover (run : (discover serverUrl limit).Runs events (.ok d)) :
    ∃ o metadata, exchanges events = [((metadataRequest serverUrl).wire, o)] ∧ o.Carries metadata ∧
      Complete metadata ∧ Lists d.endpoints metadata := by
  rcases runs_discover run with ⟨-, -, f, same⟩ | ⟨o, one, same⟩
  · cases same
  · obtain ⟨metadata, carries, accepted⟩ := ofResponse_receive_iff.mp same.symm
    -- What has been read as JSON holds each name once, so look-ups and entries are the same.
    obtain ⟨_, _, _, _, _, _, read⟩ := id carries
    refine ⟨o, metadata, one, carries, ofMetadata_ok_iff.mp ⟨d, accepted⟩, ?_⟩
    rw [endpoints_of_ofMetadata accepted]
    exact lists_endpoints (Json.proper_of_read? read).distinct

theorem discover_of_carries (run : (discover serverUrl limit).Runs events out)
    (one : exchanges events = [((metadataRequest serverUrl).wire, o)]) (carries : o.Carries metadata)
    (complete : Complete metadata) : ∃ d, out = .ok d := by
  obtain ⟨d, accepted⟩ := ofMetadata_ok_iff.mpr complete
  rcases runs_discover run with ⟨-, none, -⟩ | ⟨o', other, rfl⟩
  · cases one.symm.trans none
  · cases one.symm.trans other
    exact ⟨d, ofResponse_receive_iff.mpr ⟨metadata, carries, accepted⟩⟩

end Server

/-! ## Placeholders -/

namespace Template

variable {c : EndpointContext} {text out : String} {ps : List Piece} {cs : List Char}

/-- What becomes of a piece of a text where a server has named endpoints: each of them takes its
value. -/
inductive FromServer (endpoints : Record String) : Piece → List Char → Prop
  | char (a : Char) : FromServer endpoints (.char a) [a]
  | named {name : List Char} {v : String} (named : endpoints.get? (String.ofList name) = some v) :
      FromServer endpoints (.slot name) v.toList
  | other {name value : List Char} (unnamed : endpoints.get? (String.ofList name) = none) :
      FromServer endpoints (.slot name) value

/-- The text with the endpoints that the server has named, and whatever there is in place of others. -/
def ServerFirst (endpoints : Record String) (text out : String) : Prop :=
  ∃ ps values, Splits endpointForm text.toList ps ∧ List.Forall₂ (FromServer endpoints) ps values ∧
    out = String.ofList values.flatten

/-- The endpoint context has the endpoints of a server, none of which is empty. -/
structure Knows (c : EndpointContext) (endpoints : Record String) : Prop where
  discovered : c.discovered = endpoints
  filled {name v : String} (named : endpoints.get? name = some v) : v ≠ ""

theorem Knows.eq_of_gives {given : String} (knows : Knows c endpoints)
    (named : endpoints.get? name = some v) (gives : c.Gives name given) : given = v := by
  obtain ⟨rfl, filled⟩ := knows
  have server : ¬c.Unnamed name := fun unnamed => filled named (unnamed v named)
  cases gives with
  | discovered found _ => exact Option.some.inj (found.symm.trans named)
  | default unnamed _ => exact absurd unnamed server
  | setting unnamed _ _ => exact absurd unnamed server

theorem Knows.gives (knows : Knows c endpoints) (named : endpoints.get? name = some v) :
    c.Gives name v :=
  .discovered (knows.discovered ▸ named) (knows.filled named)

theorem Knows.fromServer_of_fills (knows : Knows c endpoints) (fills : Fills c ps cs) :
    ∃ values, List.Forall₂ (FromServer endpoints) ps values ∧ values.flatten = cs := by
  induction fills with
  | nil => exact ⟨[], .nil, rfl⟩
  | @char a _ _ _ ih =>
    obtain ⟨values, each, rfl⟩ := ih
    exact ⟨[a] :: values, .cons (.char a) each, rfl⟩
  | @slot name given _ _ gives _ ih =>
    obtain ⟨values, each, rfl⟩ := ih
    refine ⟨given.toList :: values, .cons ?_ each, rfl⟩
    cases named : endpoints.get? (String.ofList name) with
    | none => exact .other named
    | some v =>
      rw [knows.eq_of_gives named gives]
      exact .named named

theorem Knows.serverFirst_of_filled (knows : Knows c endpoints) (filled : Filled c text out) :
    ServerFirst endpoints text out := by
  obtain ⟨ps, cs, splits, fills, rfl⟩ := filled
  obtain ⟨values, each, rfl⟩ := knows.fromServer_of_fills fills
  exact ⟨ps, values, splits, each, rfl⟩

theorem Knows.get?_of_lacks (knows : Knows c endpoints) (lacks : Lacks c text name) :
    name ∈ slots endpointForm text ∧ endpoints.get? name = none := by
  obtain ⟨ps, splits, first⟩ := lacks
  obtain rfl := endpointForm_bracketed.splits_iff.mp splits
  refine ⟨first.mem, ?_⟩
  rw [Option.eq_none_iff_forall_ne_some]
  exact fun v named => first.holds v (knows.gives named)

end Template

namespace Session

open Template (ServerFirst Partwise slots endpointForm)

/-- The endpoints take precedence over all that the session has else: where a text names one of them,
it is filled with it, and so is each part of a request before the tokens in it are replaced. -/
structure Prefers (s : Session) (endpoints : Record String) : Prop where
  filled {text out : String} (fills : Template.fill s.endpointContext.endpoint? text = .ok out) :
    ServerFirst endpoints text out
  unfilled {text : String} {f : RenderFault}
    (fails : Template.fill s.endpointContext.endpoint? text = .error f) :
    ∃ name ∈ slots endpointForm text, f = .unresolvedEndpoint name ∧ endpoints.get? name = none
  rendered {id : String} {request : Request} (renders : s.render id = .ok (.ok request)) :
    ∃ step template filled values, s.flow.step? id = some step ∧ step.template = some template ∧
      Partwise (fun _ => ServerFirst endpoints) template filled ∧
      Partwise (fun scope text out => Template.substitute values scope text = .ok out) filled request
  refused {id name : String} (refuses : s.render id = .ok (.error (.unresolvedEndpoint name))) :
    endpoints.get? name = none

theorem of_substituteAll_error {values : List (Rule × String)} {filled : Request} {f : RenderFault}
    (fails : Template.traverse (Template.substitute values) filled = .error f) :
    ∃ token scope, f = .unboundPlaceholder token scope := by
  rw [← fault?_eq_some_iff, Template.fault?_traverse] at fails
  obtain ⟨part, -, fault⟩ := List.exists_of_findSome?_eq_some fails
  rw [fault?_eq_some_iff] at fault
  unfold Template.substitute at fault
  dsimp only at fault
  split at fault
  · cases fault
    exact ⟨_, _, rfl⟩
  · cases fault

theorem prefers_of_knows {s : Session} (knows : Template.Knows s.endpointContext endpoints) :
    s.Prefers endpoints where
  filled fills := knows.serverFirst_of_filled (Template.fill_ok_iff.mp fills)
  unfilled fails := by
    obtain ⟨name, rfl, lacks⟩ := Template.fill_error_iff.mp fails
    obtain ⟨within, unnamed⟩ := knows.get?_of_lacks lacks
    exact ⟨name, within, rfl, unnamed⟩
  rendered renders := by
    obtain ⟨step, template, found, given, made⟩ := exists_template_of_render renders
    rw [render_eq] at made
    obtain ⟨filled, fills, made⟩ := bind_ok_iff.mp made
    obtain ⟨values, -, substituted⟩ := bind_ok_iff.mp made
    exact ⟨step, template, filled, values, found, given,
      (fillAll_ok_iff.mp fills).imp fun _ _ _ => knows.serverFirst_of_filled,
      Template.traverse_ok_iff.mp substituted⟩
  refused refuses := by
    obtain ⟨step, template, found, given, made⟩ := exists_template_of_render refuses
    rw [render_eq] at made
    rcases bind_error_iff.mp made with fails | ⟨filled, -, made⟩
    · obtain ⟨part, name, -, lacks, ⟨⟩⟩ := fillAll_error_iff.mp fails
      exact (knows.get?_of_lacks lacks).2
    -- The later phases have faults of their own.
    rcases bind_error_iff.mp made with fails | ⟨values, -, fails⟩
    · obtain ⟨r, -, fault⟩ := resolveAll_error_iff.mp fails
      exact absurd (of_resolve_error fault).1 (by simp [RenderFault.kind])
    · obtain ⟨_, _, ⟨⟩⟩ := of_substituteAll_error fails

end Session

namespace Server

/-- Whatever the server does, discovery ends, after one request if the time limit can be set. It
succeeds exactly when an answer with a status of success carries complete metadata, and fails with a
discovery error else. What it keeps are the endpoints in the metadata, and a session that has them
fills each placeholder that names one of them with it, whatever its defaults, its variables and its
address of the server are. -/
theorem discover_exactly (serverUrl : String) (limit : Number) :
    (∀ server : Wire → Outcome, ∃ events out,
      (discover serverUrl limit).Runs events out ∧ ServedBy server events) ∧
    ∀ events out, (discover serverUrl limit).Runs events out →
      (Exchange.Settable limit →
        ∃ o, exchanges events = [((metadataRequest serverUrl).wire, o)]) ∧
      ((∃ d, out = .ok d) ↔ ∃ o metadata,
        exchanges events = [((metadataRequest serverUrl).wire, o)] ∧ o.Carries metadata ∧
          Complete metadata) ∧
      (∀ f, out = .error f → f.report.kind = "DiscoveryError") ∧
      ∀ d, out = .ok d →
        (∀ o metadata, exchanges events = [((metadataRequest serverUrl).wire, o)] →
          o.Carries metadata → Lists d.endpoints metadata) ∧
        ∀ s : Session, s.discovered = d.endpoints → s.Prefers d.endpoints := by
  refine ⟨fun server => Talk.exists_runs server _, fun events out run =>
    ⟨fun settable => ?_, ⟨?_, ?_⟩, fun _ _ => rfl, ?_⟩⟩
  · rcases runs_discover run with ⟨unset, -⟩ | ⟨o, one, -⟩
    · exact absurd settable unset
    · exact ⟨o, one⟩
  · rintro ⟨d, rfl⟩
    obtain ⟨o, metadata, one, carries, complete, -⟩ := carried_of_discover run
    exact ⟨o, metadata, one, carries, complete⟩
  · rintro ⟨o, metadata, one, carries, complete⟩
    exact discover_of_carries run one carries complete
  · rintro d rfl
    obtain ⟨o, metadata, one, carries, -, lists⟩ := carried_of_discover run
    refine ⟨fun o' metadata' again carriesToo => ?_, fun s stored => ?_⟩
    · cases one.symm.trans again
      rwa [carries.unique carriesToo]
    · exact Session.prefers_of_knows ⟨stored, fun named => ((lists.2 _ _).mp named).2.1⟩

/-- The session has a default and a variable of the name as well. -/
theorem discover_before_default : ∃ (o : Outcome) (metadata : Record Value) (d : Server) (s : Session),
    (discover "https://as" (.ofInt 9)).Runs [.sent (metadataRequest "https://as").wire o] (.ok d) ∧
      o.Carries metadata ∧ Complete metadata ∧ Lists d.endpoints metadata ∧
        s.discovered = d.endpoints ∧ s.flow.endpointDefaults = [("token_endpoint", "/d")] ∧
          s.serverUrl = some "https://as" ∧ s.vars = [("token_endpoint", "v")] ∧
            s.Prefers d.endpoints ∧
              Template.fill s.endpointContext.endpoint? "\x7btoken_endpoint\x7d" = .ok "t" := by
  let body := "\x7b\"issuer\":\"i\",\"registration_endpoint\":\"r\",\"scope\":\"s\",\"x_endpoint\":\"\"," ++
    "\"authorization_endpoint\":\"a\",\"token_endpoint\":\"t\"\x7d"
  let o : Outcome := .answered ⟨200, "OK", [], .ok body⟩
  -- Values cannot be compared, so the metadata is looked at through its texts.
  have read : ((Json.read? body).bind Value.entries?).map (fun m =>
      (required.all fun name => (textAt? m name).isSome, textAt? m "token_endpoint")) =
        some (true, some "t") := by decide +kernel
  obtain ⟨metadata, found, texts⟩ := Option.map_eq_some_iff.mp read
  obtain ⟨v, found, object⟩ := Option.bind_eq_some_iff.mp found
  obtain rfl : v = .mapping metadata := by
    cases v <;> cases object
    rfl
  obtain ⟨all, token⟩ := Prod.mk.inj texts
  have complete : Complete metadata := complete_iff.mpr all
  have carries : o.Carries metadata := ⟨_, body, rfl, rfl, by decide, by decide, found⟩
  have run : (discover "https://as" (.ofInt 9)).Runs [.sent (metadataRequest "https://as").wire o]
      (ofResponse (metadataUrl "https://as")
        (Exchange.receive (metadataRequest "https://as").title (.ofInt 9) o)) := by
    have settable : Exchange.limitComplaint? (.ofInt 9) = none := by decide
    rw [discover, exchange, settable]
    exact .send (.done _)
  obtain ⟨-, accepts, -, keeps⟩ := (discover_exactly "https://as" (.ofInt 9)).2 _ _ run
  obtain ⟨d, ended⟩ := accepts.mpr ⟨o, metadata, rfl, carries, complete⟩
  obtain ⟨lists, wins⟩ := keeps d ended
  have listed := lists o metadata rfl carries
  have named : d.endpoints.get? "token_endpoint" = some "t" :=
    (listed.2 _ _).mpr ⟨(textAt?_eq_some_iff.mp token).1, by decide, .inr (.inr ⟨"token", by decide⟩)⟩
  let s : Session :=
    { flow := { steps := [], endpointDefaults := [("token_endpoint", "/d")], schedule := [], warnings := [] }
      serverUrl := some "https://as", discovered := d.endpoints, vars := [("token_endpoint", "v")] }
  refine ⟨o, metadata, d, s, ended ▸ run, carries, complete, listed, rfl, rfl, rfl, rfl, wins s rfl, ?_⟩
  have value : s.endpointContext.endpoint? "token_endpoint" = some "t" :=
    EndpointContext.endpoint?_eq_some_iff.mpr (.discovered named (by decide))
  have pieces : Template.pieces Template.endpointForm "\x7btoken_endpoint\x7d".toList =
      [.slot "token_endpoint".toList] := by decide
  rw [Template.fill, pieces]
  simp [Template.fillPiece, value, Except.map]

end Server

end Walkthrough
