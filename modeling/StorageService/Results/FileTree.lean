import StorageService.Foundation.History
import StorageService.Results.FileRequests
import StorageService.Storage.TreeOperations

/-!
# The installation as a server of a tree of files

In whatever order requests over WebDAV, operations of the services and the clock
come, the histories of the installation are histories of a server that knows nothing
but a tree of files.  What a download can show follows from the histories of that
server.
-/

namespace StorageService.Results

open StorageService.Foundation
open StorageService.Foundation.Action
open StorageService.Storage
open StorageService.Webdav

inductive Happening where
  | request (principal : StoragePrincipal) (asked : DavRequest)
      (result : Except Failure DavAnswer)
  | operation (op : Operation)

inductive FileStep (env : Env) (display : Display) (w : World) : List Happening → World → Prop where
  /-- However it is answered; no fault strikes it. -/
  | request (principal : StoragePrincipal) (asked : DavRequest) :
      FileStep env display w
        [.request principal asked (dispatch env display principal asked (w.withFault none)).1]
        (dispatch env display principal asked (w.withFault none)).2
  /-- An operation that succeeds, such as those of the REST views and of operators. -/
  | operation {op : Operation} {w' : World} (h : Succeeds env op w w') :
      FileStep env display w [.operation op] w'
  | clock (t : Time) (later : w.out.now ≤ t) :
      FileStep env display w [] { w with out := { w.out with now := t } }

inductive TreeStep (env : Env) (t : FileTree FileName StoredFile) :
    List Happening → FileTree FileName StoredFile → Prop where
  | request {principal : StoragePrincipal} {asked : DavRequest}
      {result : Except Failure DavAnswer} {events : List (FileEvent FileName StoredFile)}
      (h : Answers env t (asked.asks env principal.companyId) result events) :
      TreeStep env t [.request principal asked result] (t.replay events)
  | operation {op : Operation} {events : List (FileEvent FileName StoredFile)}
      (h : op.Accounts env t events) : TreeStep env t [.operation op] (t.replay events)

/-- The tree that clients see of a state that keeps its invariants. -/
structure Shows (env : Env) (w : World) (t : FileTree FileName StoredFile) : Prop where
  sound : Sound env w
  backed : Backed w
  tree : tree w = t

def Sent (history : List Happening) (companyId : Nat) (data : Bytes) : Prop :=
  (∃ principal path contentType result,
    Happening.request principal (.put path contentType data) result ∈ history ∧
      principal.companyId = some companyId ∧ (result = .ok .created ∨ result = .ok .noContent)) ∨
    ∃ u, Happening.operation (.upload u) ∈ history ∧ u.bucket.companyId = companyId ∧
      u.data = data

/-- What a client reads of a download: as many bytes as the headers announce. -/
def received (headers : FileHeaders) (data : Bytes) : Bytes := data.take headers.contentLength

def Happening.Touches (env : Env) (name : FileName) : Happening → Prop
  | .request principal asked _ => ∃ question, asked.asks env principal.companyId = some question ∧
      question.Touches (fileServer env) name
  | .operation op => op.Touches env name

section FileTree

variable {env : Env} {display : Display} {w w₁ w₂ : World} {t t' : FileTree FileName StoredFile}
variable {principal : StoragePrincipal} {history : List Happening} {name : FileName}
variable {data : Bytes} {request : DavRequest} {result : Except Failure DavAnswer}
variable {events : List (FileEvent FileName StoredFile)}

/-! ## The installation refines the tree -/

theorem Shows.ready (h : Shows env w t) : Ready env (w.withFault none) where
  sound := ((keeps_lenient env).fault w none).sound h.sound
  backed := h.backed
  quiet := rfl

/-- One step of the installation is at most one step of the tree. -/
theorem fileStep_simulated (henv : env.Lawful) (hw : Shows env w t) {new : List Happening}
    (h : FileStep env display w new w₁) :
    ∃ t', History (TreeStep env) t new t' ∧ Shows env w₁ t' := by
  obtain ⟨hsound, hbacked, rfl⟩ := hw
  have hw : Shows env w (tree w) := ⟨hsound, hbacked, rfl⟩
  cases h with
  | request principal request =>
      obtain ⟨events, ⟨htree, hbacked'⟩, hanswers⟩ :=
        dispatch_served henv hw.ready display principal request
      refine ⟨_, .single (.request hanswers), ?_, hbacked', htree⟩
      exact (dispatch_keeps henv display principal request).sound hw.ready.sound
  | operation h =>
      obtain ⟨events, hreplays, haccounts⟩ := h.replayed henv hsound hbacked
      exact ⟨_, .single (.operation haccounts), h.step.sound henv hsound, hreplays.backed,
        hreplays.tree⟩
  | clock later =>
      exact ⟨_, .nil, ⟨hsound.engine, hsound.keys, hsound.allotted, hsound.blobs, hsound.company⟩,
        hbacked, rfl⟩

theorem shows_initial (env : Env) : Shows env (.initial env.engine) .empty where
  sound := sound_initial env
  backed := backed_initial env.engine
  tree := rfl

theorem fileRun_simulated (henv : env.Lawful) (hw : Shows env w t)
    (h : History (FileStep env display) w history w₁) :
    ∃ t', History (TreeStep env) t history t' ∧ Shows env w₁ t' :=
  h.simulates (fun hw hstep => fileStep_simulated henv hw hstep) hw

def sampleAnswer (principal : StoragePrincipal) (request : DavRequest) (w : World) :
    Except Failure DavAnswer × World :=
  dispatch (sampleEnv true) sampleDisplay principal request (w.withFault none)

def samplePath (path : Text) : Text := companyBucketName ++ '/' :: path

def samplePut (path : Text) (data : Bytes) : DavRequest := .put (samplePath path) none data

def sampleWorld : World := (sampleAnswer (member 1) (samplePut ['a'] [97]) .initial).2

def sampleHistory : List Happening :=
  [.request (member 1) (samplePut ['a'] [97])
    (sampleAnswer (member 1) (samplePut ['a'] [97]) .initial).1]

theorem sampleHistory_run :
    History (FileStep (sampleEnv true) sampleDisplay) .initial sampleHistory sampleWorld :=
  .single (.request (member 1) (samplePut ['a'] [97]))

theorem reply_error (companyId status : Nat) (text : String) :
    reply companyId (.ok (.error status text)) = .missing ∨
      reply companyId (.ok (.error status text)) = .taken ∨
        reply companyId (.ok (.error status text)) = .refused := by
  rw [reply]
  split
  · exact .inl rfl
  · split
    · exact .inr (.inl rfl)
    · exact .inr (.inr rfl)

theorem reply_created_iff {companyId : Nat} :
    reply companyId result = .created ↔ result = .ok .created := by
  rcases result with e | answer
  · simp [reply]
  · cases answer with
    | error status text =>
        rcases reply_error companyId status text with h | h | h <;> simp [h]
    | _ => simp [reply]

theorem reply_done_iff {companyId : Nat} :
    reply companyId result = .done ↔ result = .ok .noContent := by
  rcases result with e | answer
  · simp [reply]
  · cases answer with
    | error status text =>
        rcases reply_error companyId status text with h | h | h <;> simp [h]
    | _ => simp [reply]

theorem reply_content_iff {companyId : Nat} {headers : FileHeaders} :
    reply companyId result = .content (headers, data) ↔ result = .ok (.file headers data) := by
  rcases result with e | answer
  · simp [reply]
  · cases answer with
    | error status text =>
        rcases reply_error companyId status text with h | h | h <;> simp [h]
    | _ => simp [reply]

theorem put_of_asks {companyId : Option Nat} {file : StoredFile}
    (h : request.asks env companyId = some (.write name file)) :
    companyId = some name.1 ∧ ∃ path contentType body, request = .put path contentType body ∧
      file = uploadedFile env name.2.2 contentType body := by
  cases request with
  | put path contentType body =>
      obtain ⟨file, hfile, heq⟩ := Option.map_eq_some_iff.mp h
      cases heq
      exact ⟨fileAt_company hfile, path, contentType, body, rfl, rfl⟩
  | _ =>
      obtain ⟨file, -, heq⟩ := Option.map_eq_some_iff.mp h
      cases heq

theorem filesOf_company {companyId : Option Nat} {path destination : Text}
    {files : FileName × FileName} (h : filesOf env companyId path destination = some files) :
    files.1.1 = files.2.1 := by
  simp only [filesOf] at h
  split at h
  · rename_i source dest hsource hdest
    cases h
    obtain ⟨tail, -, hdest⟩ := Option.bind_eq_some_iff.mp hdest
    exact Option.some.inj ((fileAt_company hsource).symm.trans (fileAt_company hdest))
  · contradiction

theorem company_of_asks {companyId : Option Nat} {source dest : FileName}
    (h : request.asks env companyId = some (.copy source dest) ∨
      request.asks env companyId = some (.move source dest)) : source.1 = dest.1 := by
  rcases h with h | h
  · cases request with
    | copy path destination =>
        obtain ⟨files, hfiles, heq⟩ := Option.map_eq_some_iff.mp h
        cases heq
        exact filesOf_company hfiles
    | _ =>
        obtain ⟨files, -, heq⟩ := Option.map_eq_some_iff.mp h
        cases heq
  · cases request with
    | move path destination =>
        obtain ⟨files, hfiles, heq⟩ := Option.map_eq_some_iff.mp h
        cases heq
        exact filesOf_company hfiles
    | _ =>
        obtain ⟨files, -, heq⟩ := Option.map_eq_some_iff.mp h
        cases heq

theorem Sent.append {companyId : Nat} (h : Sent history companyId data)
    (new : List Happening) : Sent (history ++ new) companyId data := by
  rcases h with ⟨principal, path, contentType, result, hmem, hrest⟩ | ⟨u, hmem, hrest⟩
  · exact .inl ⟨principal, path, contentType, result, List.mem_append_left new hmem, hrest⟩
  · exact .inr ⟨u, List.mem_append_left new hmem, hrest⟩

/-- Empty or sent by the company, and on S3 described by the length it has. -/
structure Rightful (env : Env) (history : List Happening) (name : FileName) (file : StoredFile) :
    Prop where
  origin : file.data = [] ∨ Sent history name.1 file.data
  whole : env.s3Backend = true → file.size = file.data.length

theorem Rightful.append {file : StoredFile} (h : Rightful env history name file)
    (new : List Happening) : Rightful env (history ++ new) name file :=
  ⟨h.origin.imp_right fun hsent => hsent.append new, h.whole⟩

theorem rightful_empty {file : StoredFile} (hdata : file.data = []) (hsize : file.size = 0) :
    Rightful env history name file :=
  ⟨.inl hdata, fun _ => by rw [hdata, hsize, List.length_nil]⟩

/-- What an upload leaves is its own data, or on the filesystem the data there were. -/
theorem rightful_landed (path : Text) (contentType : Option Text) {body : Bytes}
    (ht : ∀ old, t name = some old → Rightful env history name old)
    (hsent : Sent history name.1 body) :
    Rightful env history name (landed env (t name) (uploadedFile env path contentType body)) := by
  have hnew : Rightful env history name (uploadedFile env path contentType body) :=
    ⟨.inr hsent, fun _ => rfl⟩
  cases hold : t name with
  | none => exact hnew
  | some old =>
      rw [landed, Option.map_some, Option.getD_some, overwriteFile]
      by_cases hs3 : env.s3Backend = true
      · rwa [if_pos hs3]
      · rw [if_neg hs3]
        exact ⟨(ht old hold).origin, fun h => absurd h hs3⟩

def Provenance (env : Env) (history : List Happening) (t : FileTree FileName StoredFile) : Prop :=
  ∀ name file, t name = some file → Rightful env history name file

theorem rightful_of_request (ht : Provenance env history t) {file : StoredFile}
    (h : Answers env t (request.asks env principal.companyId) result events)
    (hwrite : FileEvent.write name file ∈ events) :
    Rightful env (history ++ [.request principal request result]) name file := by
  cases hasked : request.asks env principal.companyId with
  | none =>
      rw [hasked] at h
      rw [h.1] at hwrite
      cases hwrite
  | some asked =>
      rw [hasked] at h
      rcases h.write_cases hwrite with ⟨rfl, hreply⟩ | ⟨old, sent, rfl, hreply, hold, rfl⟩ |
        ⟨folder, -, -, rfl⟩
      · obtain ⟨hcompany, path, contentType, body, rfl, rfl⟩ := put_of_asks hasked
        exact ⟨.inr (.inl ⟨principal, path, contentType, result, by simp [uploadedFile], hcompany,
          .inl (reply_created_iff.mp hreply)⟩), fun _ => rfl⟩
      · obtain ⟨hcompany, path, contentType, body, rfl, rfl⟩ := put_of_asks hasked
        have hlanded := rightful_landed name.2.2 contentType
          (fun old hold => (ht name old hold).append
            [.request principal (.put path contentType body) result])
          (.inl ⟨principal, path, contentType, result, by simp, hcompany,
            .inr (reply_done_iff.mp hreply)⟩ : Sent _ _ body)
        rw [hold] at hlanded
        exact hlanded
      · exact rightful_empty rfl rfl

theorem treeStep_provenance {new : List Happening} (ht : Provenance env history t)
    (h : TreeStep env t new t') : Provenance env (history ++ new) t' := by
  intro name file hfile
  cases h with
  | @request principal request result events hanswers =>
      refine FileTree.content_of_replay (P := Rightful env _) (fun n f hf => (ht n f hf).append _)
        (fun n f hf => rightful_of_request ht hanswers hf)
        (fun source hsource n old f hold => ?_) hfile
      cases hasked : request.asks env principal.companyId with
      | none =>
          rw [hasked] at hanswers
          rw [hanswers.1] at hsource
          cases hsource
      | some asked =>
          rw [hasked] at hanswers
          have hscope : old.1 = n.1 := hanswers.scope_of_rearrange
            (fun source dest heq => company_of_asks (.inl (heq ▸ hasked)))
            (fun source dest heq => company_of_asks (.inr (heq ▸ hasked))) hsource hold
          exact fun hf => ⟨hscope ▸ hf.origin, hf.whole⟩
  | @operation op events haccounts =>
      refine FileTree.content_of_replay (P := Rightful env _) (fun n f hf => (ht n f hf).append _)
        (fun n f hf => ?_) (fun source hsource n old f hold => ?_) hfile
      · rcases haccounts.writes n f hf with ⟨hdata, hsize⟩ | ⟨u, rfl, hcompany, rfl⟩
        · exact rightful_empty hdata hsize
        · exact rightful_landed _ _ (fun old hold => (ht n old hold).append _)
            (.inr ⟨u, by simp, hcompany, rfl⟩)
      · have hscope := haccounts.sources source hsource n old hold
        exact fun hf => ⟨hscope ▸ hf.origin, hf.whole⟩

theorem treeRun_provenance (h : History (TreeStep env) .empty history t) :
    Provenance env history t :=
  h.invariant_with (fun _ _ h => by cases h) treeStep_provenance

theorem content_of_answers {companyId : Option Nat} {headers : FileHeaders}
    (h : Answers env t (request.asks env companyId) (.ok (.file headers data)) events) :
    ∃ name file, companyId = some name.1 ∧ t name = some file ∧ file.data = data ∧
      file.size = headers.contentLength := by
  cases hasked : request.asks env companyId with
  | none =>
      rw [hasked] at h
      exact absurd (h.2 0) id
  | some asked =>
      rw [hasked, Answers] at h
      generalize hreply : reply _ _ = answer at h
      rw [reply] at hreply
      cases h with
      | @read name file found =>
          cases hreply
          refine ⟨name, file, ?_, found, rfl, rfl⟩
          cases request with
          | get path =>
              obtain ⟨file, hfile, heq⟩ := Option.map_eq_some_iff.mp hasked
              cases heq
              exact fileAt_company hfile
          | _ =>
              obtain ⟨file, -, heq⟩ := Option.map_eq_some_iff.mp hasked
              cases heq
      | _ => cases hreply

def sampleHeaders : FileHeaders where
  contentType := octetStream
  contentLength := 1
  etag := some (contentEtag (sampleEnv true) [97])
  filename := some ['a']

theorem treeStep_leaves {new : List Happening} (h : TreeStep env t new t')
    (hnew : ∀ happening ∈ new, ¬happening.Touches env name) (hname : t name ≠ none) :
    t' name = t name := by
  cases h with
  | @request principal request result events hanswers =>
      refine FileTree.replay_of_leaves ?_
      cases hasked : request.asks env principal.companyId with
      | none =>
          rw [hasked] at hanswers
          rw [hanswers.1]
          exact fun e he => by cases he
      | some asked =>
          rw [hasked] at hanswers
          exact hanswers.leaves fun htouch =>
            hnew (.request principal request result) (by simp) ⟨asked, hasked, htouch⟩
  | @operation op events haccounts =>
      exact FileTree.replay_of_leaves (haccounts.leaves name hname (hnew (.operation op) (by simp)))

theorem treeRun_leaves (h : History (TreeStep env) t history t')
    (hhistory : ∀ happening ∈ history, ¬happening.Touches env name) (hname : t name ≠ none) :
    t' name = t name := by
  induction h with
  | nil => rfl
  | @snoc labels new t₁ t₂ _ last ih =>
      simp only [List.mem_append] at hhistory
      have hbefore := ih fun happening hmem => hhistory happening (.inl hmem)
      rw [← hbefore] at hname ⊢
      exact treeStep_leaves last (fun happening hmem => hhistory happening (.inr hmem)) hname

def Stored (env : Env) (result : Except Failure DavAnswer) : Prop :=
  result = .ok .created ∨ result = .ok .noContent ∧ env.s3Backend = true

theorem content_of_stored {companyId : Option Nat} {path : Text} {contentType : Option Text}
    (h : Answers env t ((DavRequest.put path contentType data).asks env companyId) result events)
    (hname : fileAt env companyId path = some name) (hstored : Stored env result) :
    t.replay events name = some (uploadedFile env name.2.2 contentType data) := by
  have hasked : (DavRequest.put path contentType data).asks env companyId =
      some (.write name (uploadedFile env name.2.2 contentType data)) := by
    rw [DavRequest.asks, hname, Option.map_some]
  rw [hasked, Answers] at h
  have hwritten : events = [.write name (uploadedFile env name.2.2 contentType data)] := by
    rcases hstored with rfl | ⟨rfl, hs3⟩
    · cases h with
      | created => rfl
    · cases h with
      | replaced =>
          have hover : ∀ old new, (fileServer env).overwrite old new = new := fun _ _ => if_pos hs3
          rw [hover]
  rw [hwritten, FileTree.replay_cons, FileTree.replay_nil, FileTree.after, Function.update_self]

end FileTree

end StorageService.Results
