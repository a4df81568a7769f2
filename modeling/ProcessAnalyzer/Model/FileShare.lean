import ProcessAnalyzer.Model.MetricsPage
import ProcessAnalyzer.Model.RecordsPage

/-!
# `ProcessAnalyzer.Model.FileShare`: the tabs of the dashboard share their files

`dashboard/index.html` and `dashboard/records.html` are opened in any number of tabs, which are
all on the channel `pa_file_share`. A message carries a slot, and a page ignores the messages of
the other slot: `index.html` shares the text of a metrics file, `records.html` shares a `File`.

The world is the list of the open tabs, each with its page and the messages that have not been
delivered to it yet. `postMessage` puts a message into the inboxes of all other tabs, and the
messages come in any order. A step is one task of a tab.

The page of a dashboard is the one of `ProcessAnalyzer.Model.MetricsPage`, and `null` as the name
of a file is the empty name.
-/

set_option autoImplicit false

namespace ProcessAnalyzer.Dashboard

open ProcessAnalyzer.Lib.JsonText

/-- `MY_SLOT`. -/
inductive Slot where
  | dashboard
  | timeline
  deriving DecidableEq

/-- The messages that the pages post: `{ type: "file", slot: "dashboard", text, name }`,
`{ type: "file", slot: "timeline", file, name }` and `{ type: "request", slot }`. -/
inductive ShareMessage where
  | text (text name : List Char)
  | file (file : TimelineFile) (name : List Char)
  | request (slot : Slot)

/-- The variables of `index.html` that have to do with files, and what is to be seen. -/
structure DashboardTab where
  sharedFileText : Option (List Char) := none
  sharedFileName : List Char := []
  page : MetricsPage := {}

namespace DashboardTab

/-- A text counts as `true` in a condition unless it is empty. -/
def hasFile (d : DashboardTab) : Bool :=
  match d.sharedFileText with
  | some text => text ≠ []
  | none => false

/-- `fileChannel.onmessage` of `index.html`: the page afterwards, and what it posts. The text is
set before it is parsed and rendered, and what these throw is caught. -/
def onmessage (d : DashboardTab) : ShareMessage → DashboardTab × Option ShareMessage
  | .text text name =>
      if some text = d.sharedFileText then (d, none)
      else
        ({ sharedFileText := some text
           sharedFileName := name
           page := (loadText text d.page).page }, none)
  | .file _ _ => (d, none)
  | .request slot =>
      if slot ≠ .dashboard then (d, none)
      else
        (d, if d.hasFile then some (.text (d.sharedFileText.getD []) d.sharedFileName) else none)

/-- The `onload` of the reader in `loadFile`. A text that cannot be parsed changes nothing. The
text is set and posted before it is rendered, and stays so when `renderDashboard` throws. -/
def loadFile (text name : List Char) (d : DashboardTab) : DashboardTab × Option ShareMessage :=
  match parse text with
  | some json =>
      ({ sharedFileText := some text
         sharedFileName := name
         page := (renderDashboard json d.page).page }, some (.text text name))
  | none => (d, none)

end DashboardTab

namespace RecordsPage

/-- `fileChannel.onmessage` of `records.html`. -/
def onmessage (p : RecordsPage) : ShareMessage → RecordsPage × Option ShareMessage
  | .file file name =>
      if some (getFileSignature file) = p.sharedFileSignature then (p, none)
      else (p.applyFile file (if name = [] then file.name else name), none)
  | .text _ _ => (p, none)
  | .request slot =>
      if slot ≠ .timeline then (p, none)
      else (p, p.sharedFile.map fun file => .file file p.sharedFileName)

/-- `loadFile` of `records.html`. -/
def loadFile (file : TimelineFile) (p : RecordsPage) : RecordsPage × Option ShareMessage :=
  (p.applyFile file file.name, some (.file file file.name))

end RecordsPage

/-! ### The tabs -/

/-- The page in a tab. -/
inductive Tab where
  | dashboard (d : DashboardTab)
  | timeline (b : TimelineEnv) (p : RecordsPage)

/-- A tab with the messages on their way to it. `loaded` is set when its window has fired
`load`. -/
structure OpenTab where
  tab : Tab
  loaded : Bool := false
  inbox : List ShareMessage := []

/-- `MY_SLOT` of the page. -/
def Tab.slot : Tab → Slot
  | .dashboard _ => .dashboard
  | .timeline _ _ => .timeline

/-- `!sharedFileText` and `!sharedFile` are the negation of this. -/
def Tab.hasFile : Tab → Bool
  | .dashboard d => d.hasFile
  | .timeline _ p => p.sharedFile.isSome

/-- `fileChannel.onmessage`. -/
def Tab.onmessage : Tab → ShareMessage → Tab × Option ShareMessage
  | .dashboard d, msg => ((.dashboard (d.onmessage msg).1), (d.onmessage msg).2)
  | .timeline b p, msg => ((.timeline b (p.onmessage msg).1), (p.onmessage msg).2)

/-- What happens: a tab is opened or closed, its window has loaded, it becomes visible, a message
is delivered to it, the user chooses a file in it, or another task of a `records.html` runs. -/
inductive ShareEvent where
  | openDashboard
  | openTimeline (b : TimelineEnv)
  | close (i : ℕ)
  | windowLoad (i : ℕ)
  | visible (i : ℕ)
  | deliver (i k : ℕ)
  | readText (i : ℕ) (text name : List Char)
  | chooseFile (i : ℕ) (file : TimelineFile)
  | pageTask (i : ℕ) (e : RecordsPage.Event)

/-- A tab changes, and what it posts goes to all others. -/
def postFrom (i : ℕ) (t' : OpenTab) (out : Option ShareMessage) (world : List OpenTab) :
    List OpenTab :=
  world.mapIdx fun j t => if j = i then t' else { t with inbox := t.inbox ++ out.toList }

/-- One task. -/
def shareStep (world : List OpenTab) : ShareEvent → Option (List OpenTab)
  | .openDashboard => some (world ++ [{ tab := .dashboard {} }])
  | .openTimeline b => some (world ++ [{ tab := .timeline b {} }])
  | .close i => if i < world.length then some (world.eraseIdx i) else none
  | .windowLoad i =>
      (world[i]?).map fun t =>
        postFrom i { t with loaded := true } (some (.request t.tab.slot)) world
  | .visible i =>
      (world[i]?).map fun t =>
        postFrom i t (if t.tab.hasFile then none else some (.request t.tab.slot)) world
  | .deliver i k =>
      (world[i]?).bind fun t =>
        (t.inbox[k]?).map fun msg =>
          let r := t.tab.onmessage msg
          postFrom i { t with tab := r.1, inbox := t.inbox.eraseIdx k } r.2 world
  | .readText i text name =>
      (world[i]?).bind fun t =>
        match t.tab with
        | .dashboard d =>
            let r := d.loadFile text name
            some (postFrom i { t with tab := .dashboard r.1 } r.2 world)
        | .timeline _ _ => none
  | .chooseFile i file =>
      (world[i]?).bind fun t =>
        match t.tab with
        | .dashboard _ => none
        | .timeline b p =>
            let r := p.loadFile file
            some (postFrom i { t with tab := .timeline b r.1 } r.2 world)
  | .pageTask i e =>
      (world[i]?).bind fun t =>
        match t.tab, e with
        | .dashboard _, _ => none
        -- a file comes with `chooseFile` or with a message
        | .timeline _ _, .applyFile _ _ => none
        | .timeline b p, e =>
            (p.step b e).map fun p' => postFrom i { t with tab := .timeline b p' } none world

end ProcessAnalyzer.Dashboard
