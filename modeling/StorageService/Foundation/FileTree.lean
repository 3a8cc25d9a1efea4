import Mathlib.Data.Option.Basic
import Mathlib.Logic.Function.Basic

/-!
# Trees of files

A tree gives each name the content it has, if any.  What happens to it is a list
of events: content is written at a name, or names get their content from other
names, as in copying, moving and removing.  `Serves` says what a server may reply
to a request about a tree, and which events that reply stands for.
-/

namespace StorageService.Foundation

abbrev FileTree (κ β : Type) := κ → Option β

inductive FileEvent (κ β : Type) where
  | write (name : κ) (content : β)
  /-- Each name gets what its source had, and nothing without a source. -/
  | rearrange (source : κ → Option κ)

namespace FileTree

def empty {κ β : Type} : FileTree κ β := fun _ => none

variable {κ β : Type} [DecidableEq κ]

def after (t : FileTree κ β) : FileEvent κ β → FileTree κ β
  | .write name content => Function.update t name (some content)
  | .rearrange source => fun name => (source name).bind t

def replay (t : FileTree κ β) (events : List (FileEvent κ β)) : FileTree κ β :=
  events.foldl after t

/-! ## Sources -/

omit [DecidableEq κ] in
def erased (gone : κ → Prop) [DecidablePred gone] (name : κ) : Option κ :=
  if gone name then none else some name

def copied (source dest : κ) : κ → Option κ := Function.update some dest (some source)

def moved (source dest : κ) : κ → Option κ :=
  Function.update (Function.update some source none) dest (some source)

/-! ## Replaying events -/

variable {t : FileTree κ β} {name : κ} {content : β} {events : List (FileEvent κ β)}

@[simp] theorem replay_nil : t.replay [] = t := rfl

@[simp] theorem replay_cons (e : FileEvent κ β) :
    t.replay (e :: events) = (t.after e).replay events := rfl

theorem replay_append (events' : List (FileEvent κ β)) :
    t.replay (events ++ events') = (t.replay events).replay events' :=
  List.foldl_append

/--
Content was there before the events or was written by one of them.  `kept` is what
the sources of all events have in common.
-/
theorem content_of_replay {P : κ → β → Prop} (hstart : ∀ name content, t name = some content →
      P name content)
    (hwrite : ∀ name content, FileEvent.write name content ∈ events → P name content)
    (hrearrange : ∀ source, FileEvent.rearrange source ∈ events →
      ∀ name old content, source name = some old → P old content → P name content)
    (h : t.replay events name = some content) : P name content := by
  induction events generalizing t with
  | nil => exact hstart name content h
  | cons e events ih =>
      refine ih ?_ (fun n c hn => hwrite n c (List.mem_cons_of_mem e hn))
        (fun source hs => hrearrange source (List.mem_cons_of_mem e hs)) h
      intro n c hn
      cases e with
      | write written c' =>
          by_cases hnw : n = written
          · subst hnw
            rw [after, Function.update_self, Option.some.injEq] at hn
            subst hn
            exact hwrite n c' List.mem_cons_self
          · rw [after, Function.update_of_ne hnw] at hn
            exact hstart n c hn
      | rearrange source =>
          obtain ⟨old, hold, hc⟩ := Option.bind_eq_some_iff.mp hn
          exact hrearrange source List.mem_cons_self n old c hold (hstart old c hc)

def leaves (name : κ) : FileEvent κ β → Prop
  | .write written _ => name ≠ written
  | .rearrange source => source name = some name

theorem replay_of_leaves (h : ∀ e ∈ events, leaves name e) : t.replay events name = t name := by
  induction events generalizing t with
  | nil => rfl
  | cons e events ih =>
      rw [List.forall_mem_cons] at h
      rw [replay_cons, ih h.2]
      cases e with
      | write written content => rw [after, Function.update_of_ne h.1]
      | rearrange source =>
          have hsource : source name = some name := h.1
          simp only [after, hsource, Option.bind_some]

end FileTree

/-! ## Serving a tree -/

/-- How a server keeps folders, what a write leaves of old content and what it says of a file. -/
structure FileServer (κ β δ σ : Type) where
  below : κ → κ → Prop
  child : κ → κ → Prop
  /-- A folder that is there with nothing below it as well. -/
  root : κ → Prop
  marker : κ → κ
  placeholder : κ → β
  overwrite : β → β → β
  describe : κ → β → δ
  present : κ → β → σ

inductive FileRequest (κ β : Type) where
  | read (name : κ)
  /-- Is there a file of that name? -/
  | probe (name : κ)
  /-- Is there a file or a folder of that name, and what lies in it? -/
  | find (name : κ)
  | write (name : κ) (content : β)
  | remove (name : κ)
  | makeFolder (name : κ)
  | copy (source dest : κ)
  | move (source dest : κ)

def FileRequest.name {κ β : Type} : FileRequest κ β → κ
  | .read name | .probe name | .find name | .write name _ | .remove name | .makeFolder name => name
  | .copy source _ | .move source _ => source

inductive FileItem (κ δ : Type) where
  | folder (name : κ)
  | file (name : κ) (about : δ)
  deriving DecidableEq

inductive FileReply (κ δ σ : Type) where
  | content (shown : σ)
  | described (about : δ)
  | listing (items : List (FileItem κ δ))
  | created
  | done
  | missing
  | taken
  | refused
  deriving DecidableEq

def FileReply.Silent {κ δ σ : Type} : FileReply κ δ σ → Prop
  | .content _ | .described _ => False
  | .listing items => ∀ item ∈ items, ∃ name, item = .folder name
  | .created | .done | .missing | .taken | .refused => True

inductive Listed {κ β δ σ : Type} (server : FileServer κ β δ σ) (t : FileTree κ β) (folder : κ) :
    FileItem κ δ → Prop where
  | file {name : κ} {content : β} (child : server.child folder name)
      (found : t name = some content) :
      Listed server t folder (.file name (server.describe name content))
  | folder {name deeper : κ} (child : server.child folder name) (below : server.below name deeper)
      (found : t deeper ≠ none) : Listed server t folder (.folder name)

/-- A right reply to a request about the tree `t`, and the events it stands for. -/
inductive Serves {κ β δ σ : Type} [DecidableEq κ] (server : FileServer κ β δ σ)
    (t : FileTree κ β) : FileRequest κ β → FileReply κ δ σ → List (FileEvent κ β) → Prop where
  | refused (request : FileRequest κ β) : Serves server t request .refused []
  | read {name : κ} {content : β} (found : t name = some content) :
      Serves server t (.read name) (.content (server.present name content)) []
  | readMissing {name : κ} (missing : t name = none) : Serves server t (.read name) .missing []
  | probed {name : κ} {content : β} (found : t name = some content) :
      Serves server t (.probe name) (.described (server.describe name content)) []
  | probeMissing {name : κ} (missing : t name = none) :
      Serves server t (.probe name) .missing []
  | foundFile {name : κ} {content : β} (found : t name = some content) :
      Serves server t (.find name) (.listing [.file name (server.describe name content)]) []
  /-- Items may be kept back from those who must not see them. -/
  | foundFolder {name : κ} {items : List (FileItem κ δ)}
      (there : server.root name ∨ ∃ other, server.below name other ∧ t other ≠ none)
      (listed : ∀ item ∈ items, Listed server t name item) :
      Serves server t (.find name) (.listing (.folder name :: items)) []
  | findMissing {name : κ} (missing : t name = none)
      (empty : ∀ other, server.below name other → t other = none) :
      Serves server t (.find name) .missing []
  | created {name : κ} {content : β} (free : t name = none) :
      Serves server t (.write name content) .created [.write name content]
  | replaced {name : κ} {content old : β} (found : t name = some old) :
      Serves server t (.write name content) .done [.write name (server.overwrite old content)]
  | removed {name : κ} (found : t name ≠ none) :
      Serves server t (.remove name) .done [.rearrange (FileTree.erased (· = name))]
  /-- A folder is cleared as far as its content may be removed. -/
  | cleared {name : κ} (missing : t name = none) {gone : κ → Prop} [DecidablePred gone]
      (below : ∀ other, gone other → server.below name other)
      (found : ∃ other, server.below name other ∧ t other ≠ none) :
      Serves server t (.remove name) .done [.rearrange (FileTree.erased gone)]
  | removeMissing {name : κ} (missing : t name = none)
      (empty : ∀ other, server.below name other → t other = none) :
      Serves server t (.remove name) .missing []
  | folderMade {name : κ} (empty : ∀ other, server.below name other → t other = none) :
      Serves server t (.makeFolder name) .created
        [.write (server.marker name) (server.placeholder name)]
  | folderTaken {name other : κ} (below : server.below name other) (found : t other ≠ none) :
      Serves server t (.makeFolder name) .taken []
  | copied {source dest : κ} (found : t source ≠ none) (free : t dest = none) :
      Serves server t (.copy source dest) .created [.rearrange (FileTree.copied source dest)]
  | moved {source dest : κ} (found : t source ≠ none) (free : t dest = none) :
      Serves server t (.move source dest) .created [.rearrange (FileTree.moved source dest)]

/-! ## What a request is about -/

def FileRequest.Touches {κ β δ σ : Type} (server : FileServer κ β δ σ) (name : κ) :
    FileRequest κ β → Prop
  | .read _ | .probe _ | .find _ => False
  | .write written _ => name = written
  | .remove removed => name = removed ∨ server.below removed name
  | .makeFolder folder => name = server.marker folder
  | .copy _ dest => name = dest
  | .move source dest => name = source ∨ name = dest

namespace Serves

variable {κ β γ δ σ : Type} [DecidableEq κ] {server : FileServer κ β δ σ} {t : FileTree κ β}
variable {request : FileRequest κ β} {reply : FileReply κ δ σ} {events : List (FileEvent κ β)}
variable {name : κ} {content : β}

theorem leaves (h : Serves server t request reply events) (hname : ¬request.Touches server name) :
    ∀ e ∈ events, FileTree.leaves name e := by
  intro e he
  cases h with
  | created free =>
      obtain rfl := List.mem_singleton.mp he
      exact hname
  | replaced found =>
      obtain rfl := List.mem_singleton.mp he
      exact hname
  | removed found =>
      obtain rfl := List.mem_singleton.mp he
      exact if_neg fun heq => hname (.inl heq)
  | cleared missing below found =>
      obtain rfl := List.mem_singleton.mp he
      exact if_neg fun hgone => hname (.inr (below name hgone))
  | folderMade empty =>
      obtain rfl := List.mem_singleton.mp he
      exact hname
  | copied found free =>
      obtain rfl := List.mem_singleton.mp he
      exact Function.update_of_ne hname _ _
  | moved found free =>
      obtain rfl := List.mem_singleton.mp he
      obtain ⟨hsource, hdest⟩ := not_or.mp hname
      change FileTree.moved _ _ name = some name
      rw [FileTree.moved, Function.update_of_ne hdest, Function.update_of_ne hsource]
  | _ => cases he

theorem write_cases (h : Serves server t request reply events)
    (he : FileEvent.write name content ∈ events) :
    request = .write name content ∧ reply = .created ∨
      (∃ old sent, request = .write name sent ∧ reply = .done ∧ t name = some old ∧
        content = server.overwrite old sent) ∨
      ∃ folder, request = .makeFolder folder ∧ name = server.marker folder ∧
        content = server.placeholder folder := by
  cases h with
  | created free =>
      cases List.mem_singleton.mp he
      exact .inl ⟨rfl, rfl⟩
  | replaced found =>
      cases List.mem_singleton.mp he
      exact .inr (.inl ⟨_, _, rfl, rfl, found, rfl⟩)
  | folderMade empty =>
      cases List.mem_singleton.mp he
      exact .inr (.inr ⟨_, rfl, rfl, rfl⟩)
  | removed found => cases List.mem_singleton.mp he
  | cleared missing below found => cases List.mem_singleton.mp he
  | copied found free => cases List.mem_singleton.mp he
  | moved found free => cases List.mem_singleton.mp he
  | _ => cases he

/-- Content stays in its scope where copies and moves are within one. -/
theorem scope_of_rearrange (h : Serves server t request reply events) {scope : κ → γ}
    (hcopy : ∀ source dest, request = .copy source dest → scope source = scope dest)
    (hmove : ∀ source dest, request = .move source dest → scope source = scope dest)
    {source : κ → Option κ} (he : FileEvent.rearrange source ∈ events) {old : κ}
    (hold : source name = some old) : scope old = scope name := by
  have hupdate : ∀ {from' dest : κ} {g : κ → Option κ}, scope from' = scope dest →
      (∀ other, g name = some other → scope other = scope name) →
      Function.update g dest (some from') name = some old → scope old = scope name := by
    intro from' dest g hsame hg hold
    by_cases hname : name = dest
    · rw [hname, Function.update_self, Option.some.injEq] at hold
      rw [hname, ← hold, hsame]
    · rw [Function.update_of_ne hname] at hold
      exact hg old hold
  cases h with
  | replaced found => cases List.mem_singleton.mp he
  | removed found =>
      cases List.mem_singleton.mp he
      simp only [FileTree.erased] at hold
      split at hold
      · contradiction
      · rw [Option.some.inj hold]
  | cleared missing below found =>
      cases List.mem_singleton.mp he
      simp only [FileTree.erased] at hold
      split at hold
      · contradiction
      · rw [Option.some.inj hold]
  | copied found free =>
      cases List.mem_singleton.mp he
      refine hupdate (hcopy _ _ rfl) (fun other hother => ?_) hold
      rw [Option.some.inj hother]
  | @moved from' dest found free =>
      cases List.mem_singleton.mp he
      refine hupdate (hmove _ _ rfl) (fun other hother => ?_) hold
      by_cases hsource : name = from'
      · rw [hsource, Function.update_self] at hother
        contradiction
      · rw [Function.update_of_ne hsource, Option.some.injEq] at hother
        rw [hother]
  | created free => cases List.mem_singleton.mp he
  | folderMade empty => cases List.mem_singleton.mp he
  | _ => cases he

end Serves

end StorageService.Foundation
