import RobotDesk.Orchestrator
import RobotDesk.Proofs.AddressBelow

/-!
Which job a lookup asks for.

The id of a job is put into the path of the request as it is.  The request is for that job, below
the address of the orchestrator, exactly if that names a host and has neither a query nor a fragment
and the id is plain: no slash of either kind, nothing that ends a path, no tab or line break, and no
percent escape.  Blanks, quotes, parentheses and letters of any script are escaped and read back.
Two plain ids never lead to one request; an id with a slash and two dots leads to another job.
-/
namespace RobotDesk.Orchestrator

open Wire Wire.Url

/-- The last part of the path to a job. -/
def named (jobId : List Char) : List Char := ['J', 'o', 'b', 's', '('] ++ jobId ++ [')']

theorem mem_named {jobId : List Char} {c : Char} :
    c ∈ named jobId ↔ (c ∈ ['J', 'o', 'b', 's', '('] ∨ c ∈ jobId) ∨ c = ')' := by
  rw [named, List.mem_append, List.mem_append, List.mem_singleton]

/-- A request that looks a job up below an address: the last segment of its path is read as the id
of the job between parentheses. -/
structure Addresses (hosts : Hosts) (a : Access) (jobId : String) (base : Url) (r : Request) :
    Prop where
  isBase : ofText? hosts (a.baseUrl ++ "/") = some base
  isSent : a.requestFor? hosts (.getJob jobId) = some r
  method : r.method = .get
  secure : r.url.secure = base.secure
  authority : r.url.authority = base.authority
  path : ∃ segment, r.url.segments = base.segments.dropLast ++ ["api", "v1", "odata", segment] ∧
    unescape segment.toList = Text.utf8 ("Jobs(" ++ jobId ++ ")")
  query : r.url.query = none
  /-- The text that the address is read from has no fragment. -/
  fragment : '#' ∉ (a.baseUrl ++ "/api/v1/odata/Jobs(" ++ jobId ++ ")").toList

/-- A text that spells an address, on one of the hosts, with neither a query nor a fragment. -/
structure PlainBase (hosts : Hosts) (baseUrl : String) : Prop where
  isAddress : (ofText? hosts (baseUrl ++ "/")).isSome = true
  stays : ∀ c ∈ baseUrl.toList, endsPath c = false

instance (hosts : Hosts) (baseUrl : String) : Decidable (PlainBase hosts baseUrl) :=
  decidable_of_iff
    ((ofText? hosts (baseUrl ++ "/")).isSome = true ∧ baseUrl.toList.all (!endsPath ·) = true)
    ⟨fun h => ⟨h.1, by simpa using h.2⟩, fun h => ⟨h.isAddress, by simpa using h.stays⟩⟩

/-- An id in which no character has a meaning in an address, and no percent sign starts an
escape. -/
structure PlainId (jobId : String) : Prop where
  stays : ∀ c ∈ jobId.toList, isSlash c = false ∧ endsPath c = false ∧ isSeen c = true
  noEscape : hasEscape jobId.toList = false

instance (jobId : String) : Decidable (PlainId jobId) :=
  decidable_of_iff
    (jobId.toList.all (fun c => !isSlash c && !endsPath c && isSeen c) = true ∧
      hasEscape jobId.toList = false)
    ⟨fun h => ⟨by simpa [and_assoc] using h.1, h.2⟩,
      fun h => ⟨by simpa [and_assoc] using h.stays, h.noEscape⟩⟩

section Base

/-- Slashes at the end are dropped, but none in front of something else. -/
theorem trimSlashes_append {front behind : List Char} {c : Char} (hc : c ≠ '/') {s : String}
    (hs : s.toList = front ++ c :: behind) :
    ∃ rest, (trimSlashes s).toList = front ++ c :: rest := by
  have hreverse : s.toList.reverse = behind.reverse ++ c :: front.reverse := by simp [hs]
  refine ⟨(behind.reverse.dropWhile (· = '/')).reverse, ?_⟩
  rw [trimSlashes, String.toList_ofList, hreverse, dropWhile_append_cons (by simpa using hc)]
  simp

/-- Whether an address as typed starts with a scheme that is known. -/
def HasScheme (typed : String) : Prop :=
  "http://".toList <+: typed.toList ∨ "https://".toList <+: typed.toList

instance (typed : String) : Decidable (HasScheme typed) := inferInstanceAs (Decidable (_ ∨ _))

theorem HasScheme.baseUrl {typed : String} (h : HasScheme typed) (tenant apiKey : String) :
    ∃ secure rest, (access typed tenant apiKey).baseUrl.toList = schemeText secure ++ rest := by
  rcases h with h | h <;> obtain ⟨behind, hbehind⟩ := h
  · have htyped : typed.toList = "http".toList ++ ':' :: ("//".toList ++ behind) := hbehind.symm
    exact ⟨false, trimSlashes_append (by decide) htyped⟩
  · have htyped : typed.toList = "https".toList ++ ':' :: ("//".toList ++ behind) := hbehind.symm
    exact ⟨true, trimSlashes_append (by decide) htyped⟩

end Base

section Path

variable (jobId : List Char)

/-- The path to a job, below the base and without the characters that are not looked at. -/
def jobPath : List Char := "api/v1/odata/".toList ++ named (jobId.filter isSeen)

theorem parts_jobPath : parts (jobPath jobId) =
    ["api".toList, "v1".toList, "odata".toList] ++ parts (named (jobId.filter isSeen)) := by
  have hcut : jobPath jobId = "api".toList ++ '/' :: ("v1".toList ++ '/' ::
      ("odata".toList ++ '/' :: named (jobId.filter isSeen))) := rfl
  rw [hcut, parts_append, parts_append, parts_append]
  rfl

theorem walk_jobPath (reached : List String) : walk reached (parts (jobPath jobId)) =
    walk (reached ++ ["api", "v1", "odata"]) (parts (named (jobId.filter isSeen))) := by
  have hadvance : ["api".toList, "v1".toList, "odata".toList].foldl advance reached =
      reached ++ ["api", "v1", "odata"] := by
    rw [List.foldl_cons, List.foldl_cons, List.foldl_cons, List.foldl_nil,
      advance_of_not rfl rfl, advance_of_not rfl rfl, advance_of_not rfl rfl, List.append_assoc,
      List.append_assoc]
    rfl
  rw [parts_jobPath, walk_append _ _ (parts_ne_nil _), hadvance]

theorem walk_named {jobId : List Char} (h : ∀ c ∈ jobId, isSlash c = false)
    (reached : List String) :
    walk reached (parts (named jobId)) = reached ++ [escapeSegment (named jobId)] := by
  have hslash : ∀ c ∈ named jobId, isSlash c = false := by
    have hfixed : ∀ c ∈ ['J', 'o', 'b', 's', '('], isSlash c = false := by simp [isSlash]
    intro c hc
    rcases mem_named.mp hc with (hc | hc) | rfl
    · exact hfixed c hc
    · exact h c hc
    · rfl
  rw [parts_eq_singleton hslash, walk, if_neg (by simp [isAbove, named]),
    if_neg (by simp [isHere, named])]

theorem hasEscape_append_close : hasEscape (jobId ++ [')']) = hasEscape jobId := by
  induction jobId with
  | nil => rfl
  | cons c cs ih =>
    have hstarts : startsHex (cs ++ [')']) = startsHex cs := by
      cases cs with
      | nil => rfl
      | cons high cs =>
        cases cs with
        | nil => exact Bool.and_false _
        | cons low cs => rfl
    rw [List.cons_append, hasEscape, hasEscape, ih, hstarts]

theorem hasEscape_named : hasEscape (named jobId) = hasEscape jobId := by
  rw [← hasEscape_append_close jobId]
  simp [named, hasEscape]

theorem mem_jobPath {c : Char} : c ∈ jobPath jobId ↔
    (c ∈ "api/v1/odata/Jobs(".toList ∨ c ∈ jobId ∧ isSeen c = true) ∨ c = ')' := by
  rw [← List.mem_filter, ← List.mem_append, ← List.mem_singleton, ← List.mem_append]
  rfl

theorem mem_jobPath_of_endsPath {c : Char} (h : endsPath c = true) :
    c ∈ jobPath jobId ↔ c ∈ jobId := by
  have hfixed : ∀ c ∈ "api/v1/odata/Jobs(".toList, (!endsPath c) = true :=
    List.all_eq_true.mp (by decide)
  have hne : c ∉ "api/v1/odata/Jobs(".toList := fun hc => by simpa [h] using hfixed c hc
  have hclose : c ≠ ')' := fun hc => absurd (hc ▸ h) (by decide)
  rw [mem_jobPath, or_iff_left hclose, or_iff_right hne, and_iff_left (isSeen_of_endsPath h)]

end Path

section Sent

variable {hosts : Hosts} {a : Access} {secure : Bool} {rest : List Char} {base : Url}

/-- All lookups below one address differ in the path to the job only. -/
theorem requestFor?_getJob (hbase : a.baseUrl.toList = schemeText secure ++ rest)
    (hread : ofText? hosts (a.baseUrl ++ "/") = some base) :
    ∃ host path, (∀ c, endsPath c = true → (c ∈ path ↔ c ∈ a.baseUrl.toList)) ∧
      base = ofRoot secure host (path ++ ['/']) ∧
      ∀ jobId : String, a.requestFor? hosts (.getJob jobId) = some
        ⟨.get, ofRoot secure host (path ++ '/' :: jobPath jobId.toList), a.headers, none⟩ := by
  obtain ⟨host, path, hmem, hurl, hbelow⟩ := ofText?_below hbase hread
  refine ⟨host, path, hmem, hurl, fun jobId => ?_⟩
  have htext : "/api/v1/odata/Jobs(" ++ jobId ++ ")" =
      String.ofList ('/' :: ("api/v1/odata/Jobs(".toList ++ jobId.toList ++ [')'])) :=
    String.toList_inj.mp (by simp)
  have hseen : ("api/v1/odata/Jobs(".toList ++ jobId.toList ++ [')']).filter isSeen =
      jobPath jobId.toList := by
    rw [List.filter_append, List.filter_append]
    rfl
  rw [Access.requestFor?, Access.request?, htext, hbelow _ _ (by decide), hseen]
  rfl

/-- The last segment of the path is empty, or it is read as an end of what names the job. -/
theorem unescape_last_segment {reached before : List String} {segment : String} {jobId : List Char}
    (h : walk reached (parts (jobPath jobId)) = before ++ [segment]) :
    ∃ last, last <:+ named (jobId.filter isSeen) ∧ (∀ c ∈ last, isSlash c = false) ∧
      unescape segment.toList = unescape last := by
  obtain ⟨front, last, hparts, hsuffix, hplain, -⟩ := parts_eq_concat (named (jobId.filter isSeen))
  rw [walk_jobPath, hparts, walk_append _ _ (by simp)] at h
  obtain ⟨_, hwalk | hwalk⟩ := walk_singleton
    (front.foldl advance (reached ++ ["api", "v1", "odata"])) last
  · obtain rfl := List.singleton_inj.mp (List.append_inj' (hwalk.symm.trans h) rfl).2
    exact ⟨[], List.nil_suffix, by simp, rfl⟩
  · obtain rfl := List.singleton_inj.mp (List.append_inj' (hwalk.symm.trans h) rfl).2
    exact ⟨last, hsuffix, hplain, unescape_escapeSegment last⟩

/-- What is read as the name of a job, byte for byte, is that name. -/
theorem plain_of_unescape {jobId last : List Char}
    (hsuffix : last <:+ named (jobId.filter isSeen)) (hslash : ∀ c ∈ last, isSlash c = false)
    (hread : unescape last = (named jobId).flatMap String.utf8EncodeChar) :
    (∀ c ∈ jobId, isSlash c = false ∧ isSeen c = true) ∧ hasEscape jobId = false := by
  have hseen : (named (jobId.filter isSeen)).Sublist (named jobId) :=
    ((List.Sublist.refl _).append List.filter_sublist).append (List.Sublist.refl _)
  -- Nothing is dropped, since what is read is never longer than what stands there.
  have hlength : byteCount (named jobId) ≤ byteCount last := by
    have hshorter := length_unescape_add last
    rw [hread] at hshorter
    rw [byteCount]
    omega
  obtain rfl := eq_of_sublist_of_byteCount_le (hsuffix.sublist.trans hseen) hlength
  have hwhole : jobId.filter isSeen = jobId := by
    have hnamed := hseen.eq_of_length_le hsuffix.length_le
    exact List.append_cancel_left (List.append_cancel_right hnamed)
  have hinside : ∀ c ∈ jobId, c ∈ named jobId := fun c hc => mem_named.mpr (.inl (.inr hc))
  refine ⟨fun c hc => ⟨hslash c (hinside c hc), List.filter_eq_self.mp hwhole c hc⟩, ?_⟩
  rw [← hasEscape_named]
  exact (unescape_eq_utf8_iff _).mp hread

theorem utf8_named (jobId : String) : Text.utf8 ("Jobs(" ++ jobId ++ ")") =
    (named jobId.toList).flatMap String.utf8EncodeChar := by
  rw [Text.utf8, String.toList_append, String.toList_append]
  rfl

variable (hbase : a.baseUrl.toList = schemeText secure ++ rest)

include hbase

/-- Everything with a meaning in an address would change what is read from it. -/
theorem Addresses.plain {jobId : String} {r : Request} (h : Addresses hosts a jobId base r) :
    PlainBase hosts a.baseUrl ∧ PlainId jobId := by
  obtain ⟨host, path, hmem, -, hsent⟩ := requestFor?_getJob hbase h.isBase
  obtain rfl := Option.some.inj (h.isSent.symm.trans (hsent jobId))
  have hfragment := h.fragment
  simp only [String.toList_append, List.mem_append, not_or] at hfragment
  have hhash : '#' ∉ path ++ '/' :: jobPath jobId.toList := by
    have hends : endsPath '#' = true := rfl
    rw [List.mem_append, List.mem_cons, hmem _ hends, mem_jobPath_of_endsPath _ hends, not_or,
      not_or]
    exact ⟨hfragment.1.1.1, by decide, hfragment.1.2⟩
  have hstays := (queryOf_eq_none_iff hhash).mp h.query
  obtain ⟨hpath, -, hjob⟩ : (∀ c ∈ path, endsPath c = false) ∧ endsPath '/' = false ∧
      ∀ c ∈ jobPath jobId.toList, endsPath c = false := by
    simpa [or_imp, forall_and] using hstays
  obtain ⟨reached, hreached⟩ := walk_below path
  obtain ⟨segment, hsegments, hread⟩ := h.path
  have hlast : walk reached (parts (jobPath jobId.toList)) =
      (base.segments.dropLast ++ ["api", "v1", "odata"]) ++ [segment] := by
    rw [ofRoot_of_stays _ _ hstays] at hsegments
    rw [← hreached, List.append_assoc]
    exact hsegments
  obtain ⟨last, hsuffix, hslash, hsegment⟩ := unescape_last_segment hlast
  obtain ⟨hchars, hescape⟩ := plain_of_unescape hsuffix hslash
    (hsegment.symm.trans (hread.trans (utf8_named jobId)))
  have hends := (stays_congr fun _ => mem_jobPath_of_endsPath _).mp hjob
  exact ⟨⟨by rw [h.isBase]; rfl, (stays_congr hmem).mp hpath⟩,
    ⟨fun c hc => ⟨(hchars c hc).1, hends c hc, (hchars c hc).2⟩, hescape⟩⟩

/-- What has no meaning in an address is escaped, and read back. -/
theorem PlainId.addressed {jobId : String} (hid : PlainId jobId)
    (hplain : PlainBase hosts a.baseUrl) : ∃ base r, Addresses hosts a jobId base r := by
  obtain ⟨base, hread⟩ := Option.isSome_iff_exists.mp hplain.isAddress
  obtain ⟨host, path, hmem, hurl, hsent⟩ := requestFor?_getJob hbase hread
  obtain ⟨reached, hreached⟩ := walk_below path
  have hpath := (stays_congr hmem).mpr hplain.stays
  have hends : ∀ c ∈ jobId.toList, endsPath c = false := fun c hc => (hid.stays c hc).2.1
  have hbelow : ∀ more, (∀ c ∈ more, endsPath c = false) →
      ofRoot secure host (path ++ '/' :: more) =
        ⟨secure, host, walk reached (parts more), none⟩ := by
    intro more hmore
    rw [ofRoot_of_stays, hreached]
    simpa [or_imp, forall_and] using ⟨hpath, by decide, hmore⟩
  have hjob := hbelow _ ((stays_congr fun _ => mem_jobPath_of_endsPath _).mpr hends)
  rw [hbelow [] (by simp)] at hurl
  subst hurl
  refine ⟨_, _, hread, hsent jobId, rfl, rfl, rfl, ⟨escapeSegment (named jobId.toList), ?_, ?_⟩,
    congrArg Url.query hjob, ?_⟩
  · have hname : jobId.toList.filter isSeen = jobId.toList :=
      List.filter_eq_self.mpr fun c hc => (hid.stays c hc).2.2
    rw [hjob, walk_jobPath, hname, walk_named fun c hc => (hid.stays c hc).1, walk_nil]
    simp
  · rw [unescape_escapeSegment, utf8_named, unescape_eq_utf8_iff, hasEscape_named]
    exact hid.noEscape
  · intro hhash
    simp only [String.toList_append, List.mem_append] at hhash
    rcases hhash with ((hhash | hhash) | hhash) | hhash
    · exact absurd (hplain.stays _ hhash) (by decide)
    · exact absurd hhash (by decide)
    · exact absurd (hends _ hhash) (by decide)
    · exact absurd hhash (by decide)

omit hbase

/-- A request is for one job only. -/
theorem Addresses.unique {jobId jobId' : String} {base' : Url} {r : Request}
    (h : Addresses hosts a jobId base r) (h' : Addresses hosts a jobId' base' r) :
    jobId = jobId' := by
  obtain ⟨segment, hsegments, hread⟩ := h.path
  obtain ⟨segment', hsegments', hread'⟩ := h'.path
  obtain rfl : segment = segment' := by
    have hlast := congrArg List.getLast? (hsegments.symm.trans hsegments')
    simpa using hlast
  have hnames := congrArg Text.shownBytes (hread.symm.trans hread')
  simp only [Text.utf8, Text.shownBytes_utf8, String.ofList_toList] at hnames
  have hlists := congrArg String.toList hnames
  simp only [String.toList_append] at hlists
  exact String.toList_inj.mp (List.append_cancel_left (List.append_cancel_right hlists))

end Sent

/-- For an address as typed that starts with a known scheme, however hosts are read, a lookup is for
the job whose id it is given exactly if the address names a host and has neither a query nor a
fragment and the id is plain; and then no other plain id leads to the same request. -/
theorem job_addressed_iff_plain (hosts : Hosts) (typed tenant apiKey : String)
    (hscheme : HasScheme typed) :
    (∀ jobId, (∃ base r, Addresses hosts (access typed tenant apiKey) jobId base r) ↔
      PlainBase hosts (trimSlashes typed) ∧ PlainId jobId) ∧
    ∀ jobId jobId', PlainBase hosts (trimSlashes typed) → PlainId jobId → PlainId jobId' →
      (access typed tenant apiKey).requestFor? hosts (.getJob jobId) =
        (access typed tenant apiKey).requestFor? hosts (.getJob jobId') → jobId = jobId' := by
  obtain ⟨secure, rest, hbase⟩ := hscheme.baseUrl tenant apiKey
  constructor
  · intro jobId
    constructor
    · rintro ⟨base, r, h⟩
      exact h.plain hbase
    · rintro ⟨hplain, hid⟩
      exact hid.addressed hbase hplain
  · intro jobId jobId' hplain hid hid' hsame
    obtain ⟨base, r, h⟩ := hid.addressed hbase hplain
    obtain ⟨base', r', h'⟩ := hid'.addressed hbase hplain
    obtain rfl : r = r' := Option.some.inj ((h.isSent.symm.trans hsame).trans h'.isSent)
    exact h.unique h'

theorem job_addressed_of_per_cent : HasScheme "https://host/base/" ∧
    ∃ base r, Addresses .all (access "https://host/base/" "acme" "key") "50% (übrig) .." base r :=
  ⟨by decide, ((job_addressed_iff_plain .all "https://host/base/" "acme" "key" (by decide)).1 _).mpr
    ⟨by decide +kernel, by decide +kernel⟩⟩

/-- Two dots between slashes lead back to the jobs, and on to another one of them. -/
theorem job_address_climbs :
    let a := access "http://host" "acme" "key"
    a.requestFor? .all (.getJob "1)/../Jobs(2") = a.requestFor? .all (.getJob "2") ∧
    (a.requestFor? .all (.getJob "2")).isSome = true ∧
    (a.requestFor? .all (.getJob "1)/../Assets?x=")).map (·.url.target) =
      some "/api/v1/odata/Assets?x=)" := by
  decide +kernel

end RobotDesk.Orchestrator
