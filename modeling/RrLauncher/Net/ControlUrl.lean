/-
# The control URL and where it leads

`rr_fetch_control_url` puts the control URL together from the location and the text in the
description, and `rr_upnp_soap` takes it apart again.  The buffers in between have 256 bytes,
and a text that is a URL of its own is taken for a path.  So the parts are those that the
text stands for exactly if it is no such URL and everything fits
(`control_url_leads_back_iff`).
-/

import RrLauncher.Net.Upnp

namespace RrLauncher

open CStr (lit)

/-! ### What a location consists of -/

/-- A string without a slash and a colon. -/
structure IsHost (host : CStr) : Prop where
  slash : 47 ∉ host.bytes
  colon : 58 ∉ host.bytes
  ne_nil : host.bytes ≠ []

/-- The front of a text is a host if it ends in front of the first slash and the first colon, and is
not empty. -/
theorem IsHost.take {p : CStr} {n a b : ℕ} (hn : n ≠ 0) (hle : n ≤ p.len) (ha : n ≤ a)
    (hslash : 47 ∉ p.bytes.take a) (hb : n ≤ b) (hcolon : 58 ∉ p.bytes.take b) :
    IsHost (p.take n) where
  slash h := hslash ((List.take_subset_take_left p.bytes ha) h)
  colon h := hcolon ((List.take_subset_take_left p.bytes hb) h)
  ne_nil h := by
    have hlen : (p.bytes.take n).length = n := by
      rw [List.length_take]
      exact Nat.min_eq_left hle
    rw [← CStr.take_bytes, h] at hlen
    exact hn hlen.symm

/-- A character that is no digit does not occur in a port. -/
theorem digits_clear (n : ℕ) {c : UInt8} (hc : Decimal.isdigit c = false) :
    c ∉ (unsignedText n).bytes := by
  intro h
  rw [Decimal.isdigit_of_mem_digits h] at hc
  cases hc

/-- `http://`, the host and the port. -/
def origin (host : CStr) (port : UInt16) : CStr :=
  lit "http://" ++ host ++ lit ":" ++ unsignedText port.toNat

section Authority

variable {host path : CStr} (port : UInt16)

/-- The first slash behind the scheme begins the path, as neither a host nor a port has one. -/
theorem strchr_slash (hhost : IsHost host) (hpath : path.first = 47) :
    (host ++ (lit ":" ++ (unsignedText port.toNat ++ path))).strchr 47 = some path := by
  obtain ⟨rest, hrest⟩ : ∃ rest, path.bytes = 47 :: rest := by
    rw [CStr.first_eq_iff (by decide)] at hpath
    exact List.head?_eq_some_iff.mp hpath
  have hclear : 47 ∉ host.bytes ++ (lit ":").bytes ++ (unsignedText port.toNat).bytes := by
    simp only [List.mem_append, not_or]
    exact ⟨⟨hhost.slash, by decide⟩, digits_clear _ (by decide)⟩
  have hcut : (host ++ (lit ":" ++ (unsignedText port.toNat ++ path))).bytes =
      host.bytes ++ (lit ":").bytes ++ (unsignedText port.toNat).bytes ++ 47 :: rest := by
    simp only [CStr.append_bytes, hrest, List.append_assoc]
  obtain ⟨t, ht, hbytes⟩ := CStr.strchr_append hclear hcut
  rw [ht, CStr.ext (hbytes.trans hrest.symm)]

/-- The first colon stands behind the host, since a host has none. -/
theorem strchr_colon (hhost : IsHost host) :
    (host ++ (lit ":" ++ (unsignedText port.toNat ++ path))).strchr 58 =
      some (lit ":" ++ (unsignedText port.toNat ++ path)) := by
  have hcut : (host ++ (lit ":" ++ (unsignedText port.toNat ++ path))).bytes =
      host.bytes ++ 58 :: ((unsignedText port.toNat).bytes ++ path.bytes) := rfl
  obtain ⟨t, ht, hbytes⟩ := CStr.strchr_append hhost.colon hcut
  exact ht.trans (congrArg some (CStr.ext hbytes))

/-- The port is read up to the path, in which the first character is no digit. -/
theorem strtoul_port (hpath : path.first = 47) :
    (Decimal.strtoul ((lit ":" ++ (unsignedText port.toNat ++ path)).drop 1).bytes).toUInt16 =
      port := by
  rw [CStr.first_eq_iff (by decide)] at hpath
  have hread : Decimal.strtoul ((lit ":" ++ (unsignedText port.toNat ++ path)).drop 1).bytes =
      UInt32.ofNat port.toNat := by
    refine Decimal.strtoul_digits (Nat.lt_trans port.toNat_lt (by decide)) fun c hc => ?_
    rw [hpath] at hc
    cases hc
    decide
  rw [hread]
  exact UInt16.toNat_inj.mp (by simp)

/-- **An origin is taken apart** in front of a path. -/
theorem rrParseLocationUrl_origin (hhost : IsHost host) {hostSz : ℕ} (hfits : host.len < hostSz)
    (hpath : path.first = 47) :
    rrParseLocationUrl (origin host port ++ path) hostSz = some (host, port, path) := by
  have hscheme : (origin host port ++ path).strstr (lit "://") = some
      (lit "://" ++ (host ++ (lit ":" ++ (unsignedText port.toNat ++ path)))) := by
    refine CStr.strstr_eq_some_iff.mpr ⟨(lit "http").bytes, ?_, ?_, List.prefix_append _ _⟩
    · have : (lit "http://").bytes = (lit "http").bytes ++ (lit "://").bytes := by decide
      simp only [origin, CStr.append_bytes, this, List.append_assoc]
    · exact Search.clear_of_head (by decide) _
  have hbehind : (lit "://" ++ (host ++ (lit ":" ++ (unsignedText port.toNat ++ path)))).drop 3 =
      host ++ (lit ":" ++ (unsignedText port.toNat ++ path)) :=
    CStr.ext (List.drop_left' (by decide))
  have hlens : (lit ":").len = 1 ∧ 0 < host.len := ⟨by decide, List.length_pos_iff.mpr hhost.ne_nil⟩
  have hbetween : path.len < (lit ":").len + ((unsignedText port.toNat).len + path.len) := by omega
  rw [rrParseLocationUrl, hscheme]
  dsimp only
  rw [hbehind, strchr_slash port hhost hpath, strchr_colon port hhost]
  simp only [Option.map_some, Option.getD_some, CStr.append_len, strtoul_port port hpath]
  generalize (lit ":").len + ((unsignedText port.toNat).len + path.len) = behind at *
  have hfirst : host.len < host.len + behind - path.len := by omega
  simp only [Nat.add_sub_cancel, if_pos hfirst]
  rw [if_neg (by omega)]
  have htake : (host ++ (lit ":" ++ (unsignedText port.toNat ++ path))).take host.len = host :=
    CStr.ext (List.take_left' rfl)
  rw [htake]

end Authority

/-- What is taken for the path begins with a slash, and lies behind the scheme or is `/`. -/
theorem pathBehind_spec {url p : CStr} (hscheme : url.strstr (lit "://") = some p) :
    (((p.drop 3).strchr 47).getD (lit "/")).first = 47 ∧
      (((p.drop 3).strchr 47).getD (lit "/") = lit "/" ∨
        (((p.drop 3).strchr 47).getD (lit "/")).len + 3 ≤ url.len) := by
  cases hslash : (p.drop 3).strchr 47 with
  | none => exact ⟨by decide, Or.inl rfl⟩
  | some slash =>
    refine ⟨CStr.strchr_first (by decide) hslash, Or.inr ?_⟩
    have hlen := CStr.strchr_len hslash
    have hp := CStr.strstr_len hscheme
    have : (lit "://").len = 3 := by decide
    rw [CStr.drop_len] at hlen
    rw [Option.getD_some]
    omega

/-- What was accepted as a location has a host that fits, and a path. -/
theorem rrParseLocationUrl_spec {url host path : CStr} {hostSz : ℕ} {port : UInt16}
    (h : rrParseLocationUrl url hostSz = some (host, port, path)) :
    IsHost host ∧ host.len < hostSz ∧ path.first = 47 ∧
      (path = lit "/" ∨ path.len + 3 ≤ url.len) := by
  rw [rrParseLocationUrl] at h
  cases hscheme : url.strstr (lit "://") with
  | none =>
    rw [hscheme] at h
    cases h
  | some p =>
    rw [hscheme] at h
    dsimp only at h
    have hnoslash := CStr.not_mem_take_strchr (p.drop 3) 47
    have hnocolon := CStr.not_mem_take_strchr (p.drop 3) 58
    have hpath := pathBehind_spec hscheme
    generalize ((p.drop 3).strchr 47).getD (lit "/") = path' at h hpath
    generalize hcut : (p.drop 3).len - (((p.drop 3).strchr 47).map CStr.len).getD 0 = slashAt at *
    have hslashAt : slashAt ≤ (p.drop 3).len := hcut ▸ Nat.sub_le _ _
    cases hcolon : (p.drop 3).strchr 58 with
    | none =>
      rw [hcolon] at h hnocolon
      dsimp only [Option.map_none] at h
      rw [Option.ite_none_left_eq_some, not_or, Nat.not_le] at h
      obtain ⟨hfits, h⟩ := h
      simp only [Option.some.injEq, Prod.mk.injEq] at h
      obtain ⟨rfl, -, rfl⟩ := h
      refine ⟨.take hfits.1 hslashAt (Nat.le_refl _) hnoslash hslashAt hnocolon, ?_, hpath⟩
      rw [CStr.take_len hslashAt]
      exact hfits.2
    | some colon =>
      rw [hcolon] at h hnocolon
      dsimp only [Option.map_some] at h
      have hmin : (if (p.drop 3).len - colon.len < slashAt then (p.drop 3).len - colon.len
          else slashAt) ≤ slashAt ∧
          (if (p.drop 3).len - colon.len < slashAt then (p.drop 3).len - colon.len else slashAt) ≤
            (p.drop 3).len - colon.len := by
        split_ifs <;> omega
      rw [Option.ite_none_left_eq_some, not_or, Nat.not_le] at h
      obtain ⟨hfits, h⟩ := h
      simp only [Option.some.injEq, Prod.mk.injEq] at h
      obtain ⟨rfl, -, rfl⟩ := h
      generalize (if (p.drop 3).len - colon.len < slashAt then (p.drop 3).len - colon.len
        else slashAt) = n at hfits hmin ⊢
      have hle : n ≤ (p.drop 3).len := Nat.le_trans hmin.1 hslashAt
      refine ⟨.take hfits.1 hle hmin.1 hnoslash hmin.2 hnocolon, ?_, hpath⟩
      rw [CStr.take_len hle]
      exact hfits.2

/-! ### Where the text of the description leads -/

/-- A path up to its last slash. -/
def directory (path : CStr) : CStr :=
  ⟨(path.bytes.reverse.dropWhile (· ≠ 47)).reverse, fun h => path.noNul
    (List.mem_reverse.mp ((List.dropWhile_suffix _).mem (List.mem_reverse.mp h)))⟩

/-- The path that a text stands for which is no URL of its own. -/
def resolvedPath (path rel : CStr) : CStr := if rel.first = 47 then rel else directory path ++ rel

/-- The text is a URL of its own. -/
def IsHttpUrl (rel : CStr) : Prop := (lit "http://").bytes <+: rel.bytes

instance : DecidablePred IsHttpUrl := fun rel =>
  inferInstanceAs (Decidable ((lit "http://").bytes <+: rel.bytes))

/-- The host, the port and the path that the text in a description stands for, where the
description is at the host, the port and the path of the location. -/
def resolve (host : CStr) (port : UInt16) (path rel : CStr) : Option (CStr × UInt16 × CStr) :=
  if IsHttpUrl rel then rrParseLocationUrl rel (rel.len + 1)
  else some (host, port, resolvedPath path rel)

/-- What `rr_fetch_control_url` would store in buffers without a limit. -/
def wholeControlUrl (host : CStr) (port : UInt16) (path rel : CStr) : CStr :=
  origin host port ++ resolvedPath path rel

/-- The control URL leads back: `rr_upnp_soap` takes it apart into what the text in the
description stands for, and nothing was cut off. -/
structure LeadsBack (host : CStr) (port : UInt16) (path rel controlUrl : CStr) : Prop where
  parsed : ∃ parts, rrParseLocationUrl controlUrl 64 = some parts ∧
    resolve host port path rel = some parts
  whole : controlUrl = wholeControlUrl host port path rel

/-- **The directory** of the description, reached as the code reaches it: from the last slash of the
path. -/
theorem take_strrchr {path : CStr} (hpath : path.first = 47) :
    ∃ base, path.strrchr 47 = some base ∧
      path.take (path.len - base.len + 1) = directory path := by
  have hmem : 47 ∈ path.bytes := by
    rw [CStr.first_eq_iff (by decide)] at hpath
    exact List.mem_of_mem_head? hpath
  obtain ⟨u, t, hs, ht⟩ := CStr.exists_last hmem
  have hb := CStr.strrchr_bytes path 47
  rw [hs, CStr.fromLast_append u ht, Option.map_eq_some_iff] at hb
  obtain ⟨base, hbase, hbytes⟩ := hb
  refine ⟨base, hbase, CStr.ext ?_⟩
  have hlen : path.len - base.len = u.length := by
    rw [CStr.len, CStr.len, hs, hbytes, List.length_append]
    exact Nat.add_sub_cancel _ _
  have hreverse : path.bytes.reverse = t.reverse ++ 47 :: u.reverse := by
    rw [hs]
    simp
  have hskip : ∀ c ∈ t.reverse, (decide (c ≠ 47)) = true := fun c hc =>
    decide_eq_true fun h => ht (h ▸ List.mem_reverse.mp hc)
  have hdirectory : (directory path).bytes = u ++ [47] := by
    rw [directory]
    dsimp only
    rw [hreverse, List.dropWhile_append_of_pos hskip, List.dropWhile_cons_of_neg (by simp),
      List.reverse_cons, List.reverse_reverse]
  rw [CStr.take_bytes, hlen, hs, hdirectory, List.take_append,
    List.take_of_length_le (Nat.le_add_right _ _), Nat.add_sub_cancel_left]
  rfl

/-- **The buffers hold the control URL** exactly if the last one does. -/
theorem controlUrl_eq_whole_iff {host path : CStr} (port : UInt16) (rel : CStr)
    (hpath : path.first = 47) :
    controlUrl host port path rel = wholeControlUrl host port path rel ↔
      (wholeControlUrl host port path rel).len < 256 := by
  rw [controlUrl, wholeControlUrl, resolvedPath]
  dsimp only
  by_cases hrel : rel.first = 47
  · rw [if_pos hrel, if_pos hrel]
    exact CStr.fit_eq_iff (by decide)
  · obtain ⟨base, hbase, hdirectory⟩ := take_strrchr hpath
    rw [if_neg hrel, if_neg hrel, hbase]
    dsimp only
    rw [hdirectory]
    constructor
    · intro h
      rw [← h]
      exact CStr.fit_len_lt _ (by decide)
    · intro h
      have hfull : (directory path ++ rel).fit 256 = directory path ++ rel := by
        rw [CStr.fit_eq_iff (by decide)]
        rw [CStr.append_len] at h
        omega
      rw [hfull]
      exact (CStr.fit_eq_iff (by decide)).mpr h

/-- A resolved path starts with a slash, as the path of the description does, so it stands behind
the origin as one. -/
theorem resolvedPath_first {path : CStr} (rel : CStr) (hpath : path.first = 47) :
    (resolvedPath path rel).first = 47 := by
  rw [resolvedPath]
  by_cases hrel : rel.first = 47
  · rw [if_pos hrel, hrel]
  · obtain ⟨base, -, hdirectory⟩ := take_strrchr hpath
    rw [if_neg hrel, ← hdirectory]
    rw [CStr.first_eq_iff (by decide)] at hpath ⊢
    obtain ⟨rest, hrest⟩ := List.head?_eq_some_iff.mp hpath
    rw [CStr.append_bytes, CStr.take_bytes, hrest]
    rfl

/-- Resolving a relative URL drops none of it, so the path is at least as long. -/
theorem rel_len_le_resolvedPath (path rel : CStr) : rel.len ≤ (resolvedPath path rel).len := by
  rw [resolvedPath]
  split
  · exact Nat.le_refl _
  · rw [CStr.append_len]
    exact Nat.le_add_left _ _

/-- **Where a control URL leads** that was put together from the parts of a location. -/
theorem leadsBack_iff {host path : CStr} (port : UInt16) (rel : CStr) (hhost : IsHost host)
    (hfits : host.len < 64) (hpath : path.first = 47) :
    LeadsBack host port path rel (controlUrl host port path rel) ↔
      ¬ IsHttpUrl rel ∧ (wholeControlUrl host port path rel).len < 256 := by
  have hparse := rrParseLocationUrl_origin port hhost hfits (resolvedPath_first rel hpath)
  constructor
  · rintro ⟨⟨parts, hparsed, hresolve⟩, hwhole⟩
    refine ⟨fun hurl => ?_, (controlUrl_eq_whole_iff port rel hpath).mp hwhole⟩
    -- the path of the URL is shorter than the URL, and than the path that is stored
    rw [hwhole, wholeControlUrl, hparse] at hparsed
    rw [← hparsed, resolve, if_pos hurl] at hresolve
    obtain ⟨-, -, -, hshort⟩ := rrParseLocationUrl_spec hresolve
    have hlong := rel_len_le_resolvedPath path rel
    have hscheme : 7 ≤ rel.len := hurl.length_le
    rcases hshort with hroot | hshort
    · have : (lit "/").len = 1 := by decide
      rw [hroot] at hlong
      omega
    · omega
  · rintro ⟨hurl, hlen⟩
    have hwhole := (controlUrl_eq_whole_iff port rel hpath).mpr hlen
    refine ⟨⟨(host, port, resolvedPath path rel), ?_, ?_⟩, hwhole⟩
    · rw [hwhole]
      exact hparse
    · rw [resolve, if_neg hurl]

/-- **The control URL leads back** to the service exactly if the text in the description is no
URL of its own and everything fits in the buffer. -/
theorem control_url_leads_back_iff (exchange : Exchange) {d d' : RrUpnpDevice}
    (h : rrFetchControlUrl exchange d = some d') :
    ∃ host port path xml serviceType rel,
      rrParseLocationUrl d.location 64 = some (host, port, path) ∧
        rrHttpRequest exchange host port path none none upnpBuf = some xml ∧
        findWanService xml = some (serviceType, rel) ∧
        (LeadsBack host port path rel d'.controlUrl ↔
          ¬ IsHttpUrl rel ∧ (wholeControlUrl host port path rel).len < 256) := by
  obtain ⟨host, port, path, xml, serviceType, rel, hlocation, hxml, hfind, rfl⟩ :=
    rrFetchControlUrl_eq_some_iff.mp h
  obtain ⟨hhost, hfits, hpath, -⟩ := rrParseLocationUrl_spec hlocation
  exact ⟨host, port, path, xml, serviceType, rel, hlocation, hxml, hfind,
    leadsBack_iff port rel hhost hfits hpath⟩

/-- The device of a gateway whose description is at `http://192.168.1.1:5000/d.xml`. -/
def locatedDevice : RrUpnpDevice :=
  { RrUpnpDevice.zero with location := lit "http://192.168.1.1:5000/d.xml" }

/-- A description with a control URL. -/
def description (rel : CStr) : CStr :=
  lit "<service><serviceType>urn:WANIPConnection:1</serviceType><controlURL>" ++ rel ++
    lit "</controlURL></service>"

/-- The network of a gateway with that description. -/
def describedBy (rel : CStr) : Exchange := fun _ _ _ => some (description rel).bytes

/-- The location of the device in the witness is parsed to its host, its port and its path. -/
theorem location_locatedDevice : rrParseLocationUrl locatedDevice.location 64 =
    some (lit "192.168.1.1", 5000, lit "/d.xml") := by
  decide +kernel

/-- A description at `/d.xml` with the control URL `/c`, which is no URL of its own and fits: it
leads back to the service. -/
theorem control_url_leads_back_iff_path :
    ∃ d', rrFetchControlUrl (describedBy (lit "/c")) locatedDevice = some d' ∧
      LeadsBack (lit "192.168.1.1") 5000 (lit "/d.xml") (lit "/c") d'.controlUrl := by
  have hxml : rrHttpRequest (describedBy (lit "/c")) (lit "192.168.1.1") 5000 (lit "/d.xml")
      none none upnpBuf = some (description (lit "/c")) := by decide +kernel
  have hfind : findWanService (description (lit "/c")) =
      some (lit "urn:WANIPConnection:1", lit "/c") := by decide +kernel
  have hfetch := rrFetchControlUrl_eq_some_iff.mpr
    ⟨_, _, _, _, _, _, location_locatedDevice, hxml, hfind, rfl⟩
  refine ⟨_, hfetch, ?_⟩
  obtain ⟨host, port, path, xml, serviceType, rel, hlocation, hxml', hfind', hiff⟩ :=
    control_url_leads_back_iff (describedBy (lit "/c")) hfetch
  rw [location_locatedDevice] at hlocation
  cases hlocation
  rw [hxml] at hxml'
  cases hxml'
  rw [hfind] at hfind'
  cases hfind'
  exact hiff.mpr ⟨by decide, by decide +kernel⟩

/-- **A URL in the description is taken for a path**: the control URL
`http://192.168.1.1:49152/c` is stored as a path at port 5000. -/
theorem control_url_leads_elsewhere :
    ¬ ∀ (exchange : Exchange) (d d' : RrUpnpDevice) (host : CStr) (port : UInt16)
      (path xml serviceType rel : CStr),
      rrFetchControlUrl exchange d = some d' →
        rrParseLocationUrl d.location 64 = some (host, port, path) →
        rrHttpRequest exchange host port path none none upnpBuf = some xml →
        findWanService xml = some (serviceType, rel) →
        LeadsBack host port path rel d'.controlUrl := by
  intro h
  have hxml : rrHttpRequest (describedBy (lit "http://192.168.1.1:49152/c")) (lit "192.168.1.1") 5000
      (lit "/d.xml") none none upnpBuf =
        some (description (lit "http://192.168.1.1:49152/c")) := by decide +kernel
  have hfind : findWanService (description (lit "http://192.168.1.1:49152/c")) =
      some (lit "urn:WANIPConnection:1", lit "http://192.168.1.1:49152/c") := by decide +kernel
  have hfetch := rrFetchControlUrl_eq_some_iff.mpr
    ⟨_, _, _, _, _, _, location_locatedDevice, hxml, hfind, rfl⟩
  have hleads := h _ _ _ _ _ _ _ _ _ hfetch location_locatedDevice hxml hfind
  obtain ⟨parts, hparsed, hresolve⟩ := hleads.parsed
  rw [← hresolve] at hparsed
  revert hparsed
  decide +kernel

end RrLauncher
