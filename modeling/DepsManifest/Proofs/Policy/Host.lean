import DepsManifest.Policy.Check
import DepsManifest.Proofs.Text.Digits
import DepsManifest.Proofs.Text.Splitting
/-! # The host of a URL

A URL is a scheme, an authority and the rest (`Url.Parts`), and an authority is a host, with user
information before it and a port after it if there are any (`Url.Authority`). Each part is free of
the characters that end it, and of no others: user information may hold an `@` or a colon, a port a
colon, and the rest anything. So a text may hold these characters in other places than where it is
cut.

## What is proved

`Url.host_of_authority` says that the host that is looked for among the allowed ones is the host of
the URL, whatever is put before it and after it:

  * the host of a text with such parts is the host among them, unless that is empty;
  * a host that is found is not empty and holds no character that ends a part;
  * there is none exactly if the text has no mark that ends a scheme, or nothing where the host
    would be;
  * a dependency is disallowed exactly if its URL has a host, and the host is not among the allowed
    ones.

So no user information and no path can pass for a host: of several `@` in an authority the last
counts, and one in a path does not count at all.

## The way of the proof

One lemma for each cut: the first mark of a scheme, the first character that ends an authority, the
last `@` (`afterLast_text`), the first colon after it (`takeWhile_hostPort`). A text has the parts
of a URL as soon as it has the mark that ends a scheme (`Url.exists_parts_iff`), so the description
leaves out no text.
-/
namespace DepsManifest.Url

/-! ## Authorities -/

/-- User information as it stands before a host. -/
def userText : Option (List Char) → List Char
  | none => []
  | some user => user ++ ['@']

/-- A port as it stands after a host. -/
def portText : Option (List Char) → List Char
  | none => []
  | some digits => ':' :: digits

/-- The parts of an authority, each without the characters that end it. -/
structure Authority where
  userInfo : Option (List Char)
  host : List Char
  port : Option (List Char)
  userInfo_plain : ∀ user ∈ userInfo, ∀ c ∈ user, c ∉ ['/', '?', '#']
  host_plain : ∀ c ∈ host, c ∉ ['/', '?', '#', '@', ':']
  port_plain : ∀ digits ∈ port, ∀ c ∈ digits, c ∉ ['/', '?', '#', '@']

def Authority.text (a : Authority) : List Char := userText a.userInfo ++ (a.host ++ portText a.port)

namespace Authority

variable (a : Authority)

theorem plain_of_mem_text {c : Char} (h : c ∈ a.text) : c ∉ ['/', '?', '#'] := by
  have hhost : ['/', '?', '#'] ⊆ ['/', '?', '#', '@', ':'] := by decide
  have hport : ['/', '?', '#'] ⊆ ['/', '?', '#', '@'] := by decide
  obtain ⟨userInfo, host, port, huser, hplain, hdigits⟩ := a
  rw [text, List.mem_append, List.mem_append] at h
  rcases h with h | h | h
  · cases userInfo with
    | none => cases h
    | some user =>
        rcases List.mem_append.mp h with h | h
        · exact huser user rfl c h
        · rw [List.mem_singleton.mp h]
          decide
  · exact fun hmem => hplain c h (hhost hmem)
  · cases port with
    | none => cases h
    | some digits =>
        rcases List.mem_cons.mp h with rfl | h
        · decide
        · exact fun hmem => hdigits digits rfl c h (hport hmem)

theorem at_not_mem_hostPort : '@' ∉ a.host ++ portText a.port := by
  obtain ⟨userInfo, host, port, -, hplain, hdigits⟩ := a
  rw [List.mem_append]
  rintro (h | h)
  · exact hplain '@' h (by decide)
  · cases port with
    | none => cases h
    | some digits =>
        rcases List.mem_cons.mp h with h | h
        · cases h
        · exact hdigits digits rfl '@' h (by decide)

/-- The last `@` is the one before the host, if there is any. -/
theorem afterLast_text : Text.afterLast '@' a.text = a.host ++ portText a.port := by
  have hnot := a.at_not_mem_hostPort
  rw [text]
  cases a.userInfo with
  | none => exact Text.afterLast_of_not_mem hnot
  | some user =>
      rw [userText, List.append_assoc, List.singleton_append]
      exact Text.afterLast_append_mark hnot user

theorem takeWhile_hostPort : (a.host ++ portText a.port).takeWhile (· ≠ ':') = a.host := by
  refine Text.takeWhile_append_eq (fun c hc => decide_eq_true ?_) ?_
  · rintro rfl
    exact a.host_plain ':' hc (by decide)
  · cases a.port with
    | none => exact nofun
    | some digits =>
        rintro _ ⟨⟩
        rfl

end Authority

theorem exists_hostPort {cs : List Char} (hplain : ∀ c ∈ cs, c ∉ ['/', '?', '#']) (hat : '@' ∉ cs) :
    ∃ host port, cs = host ++ portText port ∧ (∀ c ∈ host, c ∉ ['/', '?', '#', '@', ':']) ∧
      ∀ digits ∈ port, ∀ c ∈ digits, c ∉ ['/', '?', '#', '@'] := by
  have hboth : ∀ c ∈ cs, c ∉ ['/', '?', '#', '@'] := by
    intro c hc hmem
    have hsplit : c ∈ ['/', '?', '#'] ∨ c = '@' := by simpa [or_assoc] using hmem
    rcases hsplit with h | rfl
    · exact hplain c hc h
    · exact hat hc
  obtain ⟨host, rest, rfl, hhost, hrest⟩ := Text.exists_run (· != ':') cs
  have hhostPlain : ∀ c ∈ host, c ∉ ['/', '?', '#', '@', ':'] := by
    intro c hc hmem
    have hsplit : c ∈ ['/', '?', '#', '@'] ∨ c = ':' := by simpa [or_assoc] using hmem
    rcases hsplit with h | rfl
    · exact hboth c (List.mem_append_left rest hc) h
    · exact absurd (hhost ':' hc) (by decide)
  cases rest with
  | nil => exact ⟨host, none, rfl, hhostPlain, nofun⟩
  | cons c digits =>
      obtain rfl : c = ':' := by simpa using hrest c rfl
      refine ⟨host, some digits, rfl, hhostPlain, ?_⟩
      rintro _ ⟨⟩ c hc
      exact hboth c (List.mem_append_right host (List.mem_cons_of_mem _ hc))

theorem Authority.exists_text_eq {cs : List Char} (h : ∀ c ∈ cs, c ∉ ['/', '?', '#']) :
    ∃ a : Authority, a.text = cs := by
  by_cases hat : '@' ∈ cs
  · obtain ⟨user, hostPort, rfl, hlast⟩ := Text.exists_append_last hat
    obtain ⟨huser, hafter⟩ := List.forall_mem_append.mp h
    obtain ⟨host, port, rfl, hhost, hport⟩ :=
      exists_hostPort (List.forall_mem_cons.mp hafter).2 hlast
    have huserPlain : ∀ u ∈ some user, ∀ c ∈ u, c ∉ ['/', '?', '#'] := by
      rintro _ ⟨⟩
      exact huser
    exact ⟨⟨some user, host, port, huserPlain, hhost, hport⟩, List.append_assoc _ _ _⟩
  · obtain ⟨host, port, rfl, hhost, hport⟩ := exists_hostPort h hat
    exact ⟨⟨none, host, port, nofun, hhost, hport⟩, rfl⟩

/-! ## URLs -/

/-- The parts of a URL. The scheme ends at the first of its marks. -/
structure Parts where
  scheme : List Char
  authority : Authority
  rest : List Char
  scheme_plain : ¬ [':', '/', '/'] <:+: scheme
  rest_begins : ∀ c ∈ rest.head?, c ∈ ['/', '?', '#']

def Parts.text (p : Parts) : List Char :=
  p.scheme ++ ([':', '/', '/'] ++ (p.authority.text ++ p.rest))

theorem endsAuthority_iff {c : Char} : endsAuthority c = true ↔ c ∈ ['/', '?', '#'] := by
  simp [endsAuthority, or_assoc]

/-- The host of a URL is that of its authority, if it is not empty. -/
theorem host?_text (p : Parts) :
    host? p.text = if p.authority.host = [] then none else some p.authority.host := by
  have hcut : Text.splitAtFirst? [':', '/', '/'] p.text =
      some (p.scheme, p.authority.text ++ p.rest) :=
    Text.splitAtFirst?_append_separator (by decide) p.scheme_plain _
  have hauthority : (p.authority.text ++ p.rest).takeWhile (fun c => !endsAuthority c) =
      p.authority.text := by
    refine Text.takeWhile_append_eq (fun c hc => ?_) fun c hc => ?_
    · rw [Bool.not_eq_true', Bool.eq_false_iff, Ne, endsAuthority_iff]
      exact p.authority.plain_of_mem_text hc
    · rw [endsAuthority_iff.mpr (p.rest_begins c hc), Bool.not_true]
  rw [host?, hcut, Option.bind_eq_bind, Option.bind_some]
  dsimp only
  rw [hauthority, Authority.afterLast_text, Authority.takeWhile_hostPort]
  simp only [List.isEmpty_iff]

/-- A text is a URL if it has the mark that ends a scheme. -/
theorem exists_parts_iff {text : List Char} :
    (∃ p : Parts, p.text = text) ↔ [':', '/', '/'] <:+: text := by
  constructor
  · rintro ⟨p, rfl⟩
    exact ⟨p.scheme, p.authority.text ++ p.rest, List.append_assoc _ _ _⟩
  · intro h
    obtain ⟨⟨scheme, after⟩, hcut⟩ := Option.ne_none_iff_exists'.mp
      (mt Text.splitAtFirst?_eq_none_iff.mp (not_not_intro h))
    obtain ⟨rfl, hscheme⟩ := Text.splitAtFirst?_eq_some (List.cons_ne_nil _ _) hcut
    obtain ⟨authority, rest, rfl, hauthority, hrest⟩ :=
      Text.exists_run (fun c => !endsAuthority c) after
    have hplain : ∀ c ∈ authority, c ∉ ['/', '?', '#'] := by
      intro c hc
      rw [← endsAuthority_iff]
      simpa using hauthority c hc
    have hbegins : ∀ c ∈ rest.head?, c ∈ ['/', '?', '#'] := by
      intro c hc
      rw [← endsAuthority_iff]
      simpa using hrest c hc
    obtain ⟨a, rfl⟩ := Authority.exists_text_eq hplain
    exact ⟨⟨scheme, a, rest, hscheme, hbegins⟩, rfl⟩

theorem host?_of_no_mark {text : List Char} (h : ¬ [':', '/', '/'] <:+: text) :
    host? text = none := by
  rw [host?, Text.splitAtFirst?_eq_none_iff.mpr h]
  rfl

/-- The host that is looked for among the allowed ones is the host of the URL, whatever is put
before it and after it. It is never empty and holds no character that ends a part; and there is none
exactly if the text has no mark that ends a scheme, or nothing where the host would be. -/
theorem host_of_authority :
    (∀ p : Parts, p.authority.host ≠ [] → host? p.text = some p.authority.host) ∧
    (∀ text host, host? text = some host → host ≠ [] ∧ ∀ c ∈ host, c ∉ ['/', '?', '#', '@', ':']) ∧
    (∀ text, host? text = none ↔
      ¬ [':', '/', '/'] <:+: text ∨ ∃ p : Parts, p.text = text ∧ p.authority.host = []) ∧
    (∀ (p : Parts) (d : Dependency) (allowed : List String), p.authority.host ≠ [] →
      d.url = some (String.ofList p.text) →
      d.disallowed? allowed = if String.ofList p.authority.host ∈ allowed then none
        else some (String.ofList p.text, String.ofList p.authority.host)) := by
  have hfound : ∀ p : Parts, p.authority.host ≠ [] → host? p.text = some p.authority.host :=
    fun p hhost => (host?_text p).trans (if_neg hhost)
  refine ⟨hfound, ?_, ?_, ?_⟩
  · intro text host h
    by_cases hmark : [':', '/', '/'] <:+: text
    · obtain ⟨p, rfl⟩ := exists_parts_iff.mpr hmark
      rw [host?_text] at h
      split at h
      · cases h
      · rename_i hhost
        cases h
        exact ⟨hhost, p.authority.host_plain⟩
    · rw [host?_of_no_mark hmark] at h
      cases h
  · intro text
    constructor
    · intro h
      refine or_iff_not_imp_left.mpr fun hmark => ?_
      obtain ⟨p, rfl⟩ := exists_parts_iff.mpr (not_not.mp hmark)
      refine ⟨p, rfl, by_contra fun hhost => ?_⟩
      cases h.symm.trans (hfound p hhost)
    · rintro (hmark | ⟨p, rfl, hhost⟩)
      · exact host?_of_no_mark hmark
      · rw [host?_text, if_pos hhost]
  · intro p d allowed hhost hurl
    rw [Dependency.disallowed?, hurl, Option.bind_eq_bind, Option.bind_some, String.toList_ofList,
      hfound p hhost, Option.bind_eq_bind, Option.bind_some]
    simp only [List.contains_iff_mem]

theorem host_of_authority_misleading :
    host? "https://good.example:x@y@bad.example:8:0/@good.example".toList =
      some "bad.example".toList ∧
    host? "https://:8:0".toList = none ∧
    Dependency.disallowed? ["good.example"]
        ⟨"src", some "https://good.example:x@y@bad.example:8:0/@good.example", none, "deps",
          "deps['src']"⟩ =
      some ("https://good.example:x@y@bad.example:8:0/@good.example", "bad.example") := by
  obtain ⟨hfound, -, hnone, hdependency⟩ := host_of_authority
  have huser : ∀ user ∈ some "good.example:x@y".toList, ∀ c ∈ user, c ∉ ['/', '?', '#'] := by
    rintro _ ⟨⟩
    exact Text.forall_of_all (by decide)
  have hplain : ∀ c ∈ "bad.example".toList, c ∉ ['/', '?', '#', '@', ':'] :=
    Text.forall_of_all (by decide)
  have hport : ∀ digits ∈ some "8:0".toList, ∀ c ∈ digits, c ∉ ['/', '?', '#', '@'] := by
    rintro _ ⟨⟩
    exact Text.forall_of_all (by decide)
  have hrest : ∀ c ∈ "/@good.example".toList.head?, c ∈ ['/', '?', '#'] := by
    rintro _ ⟨⟩
    decide
  obtain ⟨p, htext, hhost⟩ : ∃ p : Parts,
      p.text = "https://good.example:x@y@bad.example:8:0/@good.example".toList ∧
        p.authority.host = "bad.example".toList :=
    ⟨⟨"https".toList, ⟨_, _, _, huser, hplain, hport⟩, _, by decide, hrest⟩, rfl, rfl⟩
  obtain ⟨q, hqtext, hqhost⟩ :
      ∃ q : Parts, q.text = "https://:8:0".toList ∧ q.authority.host = [] :=
    ⟨⟨"https".toList, ⟨none, [], _, nofun, nofun, hport⟩, [], by decide, nofun⟩, rfl, rfl⟩
  have hne : p.authority.host ≠ [] := by
    rw [hhost]
    decide
  refine ⟨?_, (hnone _).mpr (.inr ⟨q, hqtext, hqhost⟩), ?_⟩
  · rw [← htext, ← hhost]
    exact hfound p hne
  · have hbad := hdependency p
      ⟨"src", some "https://good.example:x@y@bad.example:8:0/@good.example", none, "deps",
      "deps['src']"⟩ ["good.example"] hne (by rw [htext]; rfl)
    rw [htext, hhost] at hbad
    exact hbad

end DepsManifest.Url
