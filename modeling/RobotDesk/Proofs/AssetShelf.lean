import RobotDesk.Proofs.FilterText
import RobotDesk.Proofs.Received
import RobotDesk.Proofs.RowText
import RobotDesk.Proofs.Session

/-!
Assets that are kept by the real orchestrator.

The orchestrator keeps the asset that a body sets under its name, and finds it by a filter for the
name.  The name travels in two ways, as a JSON string in the body and as a quoted literal in the
filter, and both are read as the same name.  So an asset is read as it was set last, whatever its
name and value are made of.  The desk itself refuses an empty name.
-/
namespace RobotDesk

open OData Wire

/-- A network on which assets are kept at an address.  What is posted there and read as the row of
an asset is put on a shelf, in place of what was there under its name before; what is on the shelf
under a name is found by a filter for that name, however it is written. -/
structure KeepsAssets {ν : Type} (n : Network ν) (place : Url)
    (shelf : ν → String → Option AssetValue) : Prop where
  stores : ∀ (request : Request) (s : ν) (text : String) (row : AssetRow) (asset : AssetValue),
    request.method = .post → request.url = place → request.body = some text →
    AssetRow.codec.decode (Text.glyphs text) = .ok row → row.asset? = .ok asset →
    ∃ response s', n.send request s = (some response, s') ∧ response.isSuccess = true ∧
      ∀ name, shelf s' name = if name = asset.name then some asset else shelf s name
  finds : ∀ (request : Request) (s : ν) (name : String), request.method = .get →
    request.url.place = place →
    (request.url.parameter? "$filter").bind clauses? = some [⟨"Name", name⟩] →
    ∃ response s' rows, n.send request s = (some response, s') ∧ response.isSuccess = true ∧
      response.complete = true ∧
      (Rows.codec AssetRow.codec).decode (Text.ofBytes response.body) = .ok ⟨rows⟩ ∧
      rows.map AssetRow.asset? = (shelf s name).toList.map .ok ∧ shelf s' = shelf s

/-- The text that is posted to set an asset. -/
def assetText (asset : AssetValue) : String := (Orchestrator.assetBody asset).render

theorem decode_assetText (asset : AssetValue) :
    AssetRow.codec.decode (Text.glyphs (assetText asset)) = .ok (.ofAsset asset) :=
  Json.Codec.decode_of_spells (AssetRow.codec_spells asset _)

/-- A network whose state is the shelf, with what was posted last in front. -/
def assetServer (place : Url) : Network (List AssetValue) where
  hosts := .all
  send request s :=
    match request.method, request.body with
    | .post, some text =>
      match AssetRow.codec.decode (Text.glyphs text) with
      | .ok row =>
        match row.asset? with
        | .ok asset =>
          if request.url = place then (some { status := 201 }, asset :: s)
          else (some { status := 404 }, s)
        | .error _ => (some { status := 400 }, s)
      | .error _ => (some { status := 400 }, s)
    | .get, _ =>
      match (request.url.parameter? "$filter").bind clauses? with
      | some [⟨"Name", name⟩] =>
        if request.url.place = place then
          let found := (s.find? (·.name = name)).toList
          (some { status := 200, body := Text.utf8 (collectionText (found.map assetText)) }, s)
        else (some { status := 404 }, s)
      | _ => (some { status := 400 }, s)
    | .post, none => (some { status := 400 }, s)

theorem decode_assets (assets : List AssetValue) :
    (Rows.codec AssetRow.codec).decode
        (Text.ofBytes (Text.utf8 (collectionText (assets.map assetText)))) =
      .ok ⟨assets.map .ofAsset⟩ := by
  have hspelled : ∀ p ∈ assets.map fun asset => (assetText asset, AssetRow.ofAsset asset),
      ∀ depth, Json.Spells (AssetRow.codec.read (depth + 1)) p.1 p.2 := by
    intro p hp depth
    obtain ⟨asset, -, rfl⟩ := List.mem_map.mp hp
    exact AssetRow.codec_spells asset depth
  have hread := Rows.decode_utf8 _ hspelled
  simpa only [List.map_map, Function.comp_def] using hread

theorem keepsAssets_assetServer (place : Url) :
    KeepsAssets (assetServer place) place fun s name => s.find? (·.name = name) where
  stores := by
    intro request s text row asset hmethod hurl hbody hrow hasset
    refine ⟨{ status := 201 }, asset :: s, ?_, rfl, ?_⟩
    · simp only [assetServer, hmethod, hbody, hrow, hasset, hurl, if_true]
    · intro name
      by_cases hname : name = asset.name
      · simp [hname]
      · simp [hname, Ne.symm hname]
  finds := by
    intro request s name hmethod hplace hfilter
    let found := (s.find? (·.name = name)).toList
    refine ⟨{ status := 200, body := Text.utf8 (collectionText (found.map assetText)) }, s,
      found.map .ofAsset, ?_, rfl, rfl, decode_assets found, ?_, rfl⟩
    · simp only [assetServer, hmethod, hfilter, hplace, if_true, found]
    · rw [List.map_map]
      exact List.map_congr_left fun asset _ => AssetRow.asset?_ofAsset asset

namespace Orchestrator

variable {ν : Type} {n : Network ν} {a : Access} {url : Url}
  {shelf : ν → String → Option AssetValue}

/-- To set an asset puts it on the shelf. -/
theorem serve_setAsset (hreaches : a.Reaches n.hosts "/api/v1/odata/Assets" url)
    (hkeeps : KeepsAssets n url shelf) (asset : AssetValue) (now : Nat) (s : ν) :
    ((orchestrator n a).serve (.setAsset asset) now s).answer = .ok () ∧
      ∀ name, shelf ((orchestrator n a).serve (.setAsset asset) now s).state name =
        if name = asset.name then some asset else shelf s name := by
  have hrequest : a.requestFor? n.hosts (.setAsset asset) =
      some ⟨.post, url, a.headers, some (assetText asset)⟩ :=
    hreaches.request?_eq .post none (some (assetBody asset))
  obtain ⟨response, s', hsend, hsuccess, hshelf⟩ :=
    hkeeps.stores ⟨.post, url, a.headers, some (assetText asset)⟩ s _ _ asset rfl rfl rfl
      (decode_assetText asset) (AssetRow.asset?_ofAsset asset)
  rw [serve_of_success hrequest hreaches.headers hsend hsuccess]
  exact ⟨checked_of_success hsuccess none, hshelf⟩

/-- What is on the shelf under a name is read. -/
theorem serve_getAsset (hreaches : a.Reaches n.hosts "/api/v1/odata/Assets" url)
    (hkeeps : KeepsAssets n url shelf) (name : String) (now : Nat) (s : ν) :
    ((orchestrator n a).serve (.getAsset name) now s).answer =
      (shelf s name).elim (.error (.notFound ("Asset not found: " ++ name))) .ok := by
  have hrequest : a.requestFor? n.hosts (.getAsset name) =
      some ⟨.get, filtered url (some (assetExpression name)), a.headers, none⟩ :=
    hreaches.request?_eq .get (some (assetExpression name)) none
  have hfilter : ((filtered url (some (assetExpression name))).parameter? "$filter").bind clauses? =
      some [⟨"Name", name⟩] := by
    rw [hreaches.parameter?_filtered, Option.bind_some, clauses?_assetExpression]
  obtain ⟨response, s', rows, hsend, hsuccess, hcomplete, hrows, hassets, -⟩ :=
    hkeeps.finds ⟨.get, filtered url (some (assetExpression name)), a.headers, none⟩ s name rfl
      (hreaches.place_filtered (some (assetExpression name))) hfilter
  rw [serve_of_success hrequest hreaches.headers hsend hsuccess]
  simp only [interpret, checked_of_success hsuccess, body_of_decode hcomplete hrows]
  cases hshelf : shelf s name with
  | none =>
    obtain rfl : rows = [] := by simpa [hshelf] using hassets
    rfl
  | some asset =>
    rw [hshelf] at hassets
    obtain ⟨row, rfl, hrow⟩ := List.map_eq_singleton_iff.mp hassets
    exact hrow

/-- The asset that was set last under a name. -/
def lastSet (assets : List AssetValue) (name : String) : Option AssetValue :=
  assets.reverse.find? (·.name = name)

theorem lastSet_cons (asset : AssetValue) (assets : List AssetValue) (name : String) :
    lastSet (asset :: assets) name =
      (lastSet assets name).or (if name = asset.name then some asset else none) := by
  by_cases h : name = asset.name
  · simp [lastSet, List.find?_append, h]
  · simp [lastSet, List.find?_append, h, Ne.symm h]

/-- The shelf after some assets have been set: each name has the last of them, or what was there. -/
theorem shelf_of_performs (hreaches : a.Reaches n.hosts "/api/v1/odata/Assets" url)
    (hkeeps : KeepsAssets n url shelf) {w w' : World ν} {visits : List Visit}
    (h : Performs (orchestrator n a) w visits w') {assets : List AssetValue}
    (hcalls : visits.map Visit.call = assets.map .setAsset) (name : String) :
    shelf w'.state name = (lastSet assets name).or (shelf w.state name) := by
  induction h generalizing assets with
  | done w =>
    obtain rfl : assets = [] := by simpa using hcalls.symm
    rfl
  | wait time rest ih => exact ih hcalls
  | @call w v w' visits call answer success rest ih =>
    cases assets with
    | nil => cases hcalls
    | cons asset assets =>
      obtain ⟨hcall, hmore⟩ := List.cons.inj hcalls
      subst hcall
      have hshelf := (serve_setAsset hreaches hkeeps asset w.now w.state).2 name
      rw [← Desk.state_of_operate_ok success] at hshelf
      rw [ih hmore, hshelf, lastSet_cons]
      cases lastSet assets name with
      | some last => rfl
      | none => by_cases hname : name = asset.name <;> simp [hname]

/-- An asset with a name and a value is set with success. -/
theorem setAsset_ok (hreaches : a.Reaches n.hosts "/api/v1/odata/Assets" url)
    (hkeeps : KeepsAssets n url shelf) {asset : AssetValue} (hname : asset.name ≠ "")
    (hvalue : asset.value ≠ "") (w : World ν) :
    ∃ v, Desk.operate (orchestrator n a) (.setAsset asset) w = (.ok (), v) := by
  have hproblem : Desk.problem? (.setAsset asset) = none := by
    simp [Desk.problem?, hname, hvalue]
  have hanswer := (serve_setAsset hreaches hkeeps asset w.now w.state).1
  exact ⟨_, by rw [Desk.operate_of_no_problem hproblem, Session.ask, hanswer]⟩

/-- Any assets with names and values can be set one after the other. -/
theorem performs_setAssets (hreaches : a.Reaches n.hosts "/api/v1/odata/Assets" url)
    (hkeeps : KeepsAssets n url shelf) {assets : List AssetValue}
    (h : ∀ asset ∈ assets, asset.name ≠ "" ∧ asset.value ≠ "") (w : World ν) :
    ∃ visits w', Performs (orchestrator n a) w visits w' ∧
      visits.map Visit.call = assets.map .setAsset := by
  induction assets generalizing w with
  | nil => exact ⟨[], w, .done w, rfl⟩
  | cons asset assets ih =>
    obtain ⟨hname, hvalue⟩ := h asset List.mem_cons_self
    obtain ⟨v, hset⟩ := setAsset_ok hreaches hkeeps hname hvalue w
    obtain ⟨visits, w', hperforms, hcalls⟩ :=
      ih (fun other hother => h other (List.mem_cons_of_mem asset hother)) v
    exact ⟨_, w', .call hset hperforms, congrArg (_ :: ·) hcalls⟩

end Orchestrator

open Orchestrator in
/-- After any assets have been set through the desk, each with success, an asset is read under a
name as it was set last under it, or not found if none was; an empty name is refused before any
call.  Every asset with a name and a value can be set. -/
theorem asset_read_as_set_last {ν : Type} {n : Network ν} {a : Access} {url : Url}
    {shelf : ν → String → Option AssetValue}
    (hreaches : a.Reaches n.hosts "/api/v1/odata/Assets" url)
    (hkeeps : KeepsAssets n url shelf) {w w' : World ν}
    (hempty : ∀ name, shelf w.state name = none) {visits : List Visit}
    (h : Performs (orchestrator n a) w visits w') {assets : List AssetValue}
    (hcalls : visits.map Visit.call = assets.map .setAsset) :
    (∀ name, name ≠ "" → (Desk.getAsset (orchestrator n a) name w').1 =
      match assets.reverse.find? (·.name = name) with
      | some asset => .ok asset
      | none => .error (.notFound ("Asset not found: " ++ name))) ∧
    Desk.getAsset (orchestrator n a) "" w' = (.error (.invalidRequest "name is required"), w') ∧
    ∀ asset : AssetValue, asset.name ≠ "" → asset.value ≠ "" →
      ∃ w'', Desk.setAsset (orchestrator n a) asset w' = (.ok (), w'') := by
  refine ⟨?_, rfl, ?_⟩
  · intro name hname
    have hproblem : Desk.problem? (.getAsset name) = none := by simp [Desk.problem?, hname]
    have hasked : Desk.getAsset (orchestrator n a) name = _ := Desk.operate_of_no_problem hproblem _
    have hkept := shelf_of_performs hreaches hkeeps h hcalls name
    rw [hempty, Option.or_none] at hkept
    rw [hasked]
    refine (serve_getAsset hreaches hkeeps name w'.now w'.state).trans ?_
    rw [hkept, lastSet]
    cases assets.reverse.find? (·.name = name) <;> rfl
  · intro asset hname hvalue
    exact setAsset_ok hreaches hkeeps hname hvalue w'

/-- The address of the assets of an orchestrator. -/
def assetsUrl : Url := ⟨false, "o", ["api", "v1", "odata", "Assets"], none⟩

theorem reaches_assetsUrl :
    (Orchestrator.Access.mk "http://o" "t" "k").Reaches .all "/api/v1/odata/Assets" assetsUrl :=
  ⟨by decide +kernel, rfl, by decide⟩

open Orchestrator in
/-- Of names with quotes in them, each keeps its own value. -/
theorem asset_read_as_set_last_quoted :
    let b := orchestrator (assetServer assetsUrl) ⟨"http://o", "t", "k"⟩
    let assets : List AssetValue :=
      [⟨"it's", .text, "1"⟩, ⟨"it''s", .integer, "2"⟩, ⟨"it's", .credential, "\"\\\n"⟩]
    ∃ visits w', Performs b { state := [], opened := ⟨20000, 0, 0⟩ } visits w' ∧
      visits.map Visit.call = assets.map .setAsset ∧
      (Desk.getAsset b "it's" w').1 = .ok ⟨"it's", .credential, "\"\\\n"⟩ ∧
      (Desk.getAsset b "it" w').1 = .error (.notFound "Asset not found: it") := by
  intro b assets
  have hkeeps := keepsAssets_assetServer assetsUrl
  obtain ⟨visits, w', hperforms, hcalls⟩ := performs_setAssets reaches_assetsUrl hkeeps
    (show ∀ asset ∈ assets, asset.name ≠ "" ∧ asset.value ≠ "" by decide)
    { state := [], opened := ⟨20000, 0, 0⟩ }
  have hread := (asset_read_as_set_last reaches_assetsUrl hkeeps (fun _ => rfl) hperforms hcalls).1
  refine ⟨visits, w', hperforms, hcalls, ?_, ?_⟩
  · rw [hread "it's" (by decide)]
    rfl
  · rw [hread "it" (by decide)]
    rfl

open Orchestrator in
/-- An empty name is refused, and not looked for among the assets. -/
theorem empty_asset_name_refused :
    let b := orchestrator (assetServer assetsUrl) ⟨"http://o", "t", "k"⟩
    KeepsAssets (assetServer assetsUrl) assetsUrl (fun s name => s.find? (·.name = name)) ∧
      (Desk.getAsset b "" { state := [], opened := ⟨20000, 0, 0⟩ }).1 =
        .error (.invalidRequest "name is required") :=
  ⟨keepsAssets_assetServer assetsUrl, rfl⟩

end RobotDesk
