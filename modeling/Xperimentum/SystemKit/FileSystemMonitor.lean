import Xperimentum.Lib.Int32
import Xperimentum.SystemKit.Paths

/-! `OSEFileSystemMonitor` and its worker thread: one inotify watch and a count of links for every component of the
paths added. Fetching events does not change the list of watches and is left out. -/

namespace Xperimentum.SystemKit

open Lib.Int32

structure Watch where
  descriptor : ℤ
  linkCount : ℤ
deriving DecidableEq

structure OSEFileSystemMonitorThread where
  in_fd : ℤ
  pathFDList : Path → Option Watch
  threadShouldCheckForEvents : Bool
  threadShouldExitNow : Bool

structure OSEFileSystemMonitor where
  monitorThread : Option OSEFileSystemMonitorThread
  monitorThreadTerminated : Bool
  monitorThreadStopped : Bool
  monitorThreadPaused : Bool
  monitorThreadShouldStart : Bool

namespace OSEFileSystemMonitorThread

def initWithConnection (in_fd : ℤ) : OSEFileSystemMonitorThread := ⟨in_fd, fun _ => none, false, false⟩

/-- `inotify_add_watch` is the result of the call for the path; a failure is stored as well. -/
def addPath (t : OSEFileSystemMonitorThread) (inotify_add_watch : ℤ) (absolutePath : Path) :
    OSEFileSystemMonitorThread :=
  if t.in_fd < 0 ∨ absolutePath = [] then t
  else
    let watch : Watch := match t.pathFDList absolutePath with
      | none => ⟨inotify_add_watch, 1⟩
      | some pathDict => ⟨pathDict.descriptor, wrap32 (pathDict.linkCount + 1)⟩
    { t with pathFDList := Function.update t.pathFDList absolutePath (some watch) }

def removePath (t : OSEFileSystemMonitorThread) (absolutePath : Path) : OSEFileSystemMonitorThread :=
  if t.in_fd < 0 ∨ absolutePath = [] then t
  else
    match t.pathFDList absolutePath with
    | none => t
    | some pathDict =>
      let watch : Option Watch :=
        if pathDict.linkCount = 1 then none else some ⟨pathDict.descriptor, wrap32 (pathDict.linkCount - 1)⟩
      { t with pathFDList := Function.update t.pathFDList absolutePath watch }

def startThread (t : OSEFileSystemMonitorThread) : OSEFileSystemMonitorThread :=
  if t.threadShouldExitNow then t else { t with threadShouldCheckForEvents := true }

def stopThread (t : OSEFileSystemMonitorThread) : OSEFileSystemMonitorThread :=
  { t with threadShouldCheckForEvents := false }

end OSEFileSystemMonitorThread

namespace OSEFileSystemMonitor

open OSEFileSystemMonitorThread

def init : OSEFileSystemMonitor := ⟨none, false, true, false, false⟩

/-- A message to the thread; one sent before there is a thread has no effect. -/
def send (m : OSEFileSystemMonitor) (message : OSEFileSystemMonitorThread → OSEFileSystemMonitorThread) :
    OSEFileSystemMonitor :=
  { m with monitorThread := m.monitorThread.map message }

def start (m : OSEFileSystemMonitor) : OSEFileSystemMonitor :=
  match m.monitorThread with
  | some _ =>
    if ¬m.monitorThreadPaused ∧ ¬m.monitorThreadTerminated then
      { m.send startThread with monitorThreadStopped := false }
    else m
  | none => { m with monitorThreadShouldStart := true }

def stop (m : OSEFileSystemMonitor) : OSEFileSystemMonitor :=
  if ¬m.monitorThreadStopped then
    { m.send stopThread with monitorThreadStopped := true, monitorThreadPaused := false }
  else m

def pause (m : OSEFileSystemMonitor) : OSEFileSystemMonitor :=
  if ¬m.monitorThreadStopped ∧ ¬m.monitorThreadPaused then { m.send stopThread with monitorThreadPaused := true }
  else m

def resume (m : OSEFileSystemMonitor) : OSEFileSystemMonitor :=
  if m.monitorThreadPaused then { m.send startThread with monitorThreadPaused := false } else m

/-- The worker thread reports itself, with its inotify descriptor. -/
def setEventMonitor (m : OSEFileSystemMonitor) (aThread : OSEFileSystemMonitorThread) : OSEFileSystemMonitor :=
  let m' := { m with monitorThread := some aThread }
  if m'.monitorThreadShouldStart then m'.start else m'

/-- What the system answers for each component of a path that is added. -/
structure Answers where
  isReadable : ℕ → Bool
  inotify_add_watch : ℕ → ℤ

@[grind =] def addComponents (a : Answers) : List Path → ℕ → OSEFileSystemMonitor → OSEFileSystemMonitor
  | [], _, m => m
  | path :: paths, i, m =>
    addComponents a paths (i + 1) (if a.isReadable i then m.send (addPath · (a.inotify_add_watch i) path) else m)

def addPath (m : OSEFileSystemMonitor) (a : Answers) (absolutePath : Path) : OSEFileSystemMonitor :=
  if m.monitorThreadTerminated then m else (addComponents a absolutePath.componentPaths 0 m.pause).resume

def removeComponents (paths : List Path) (m : OSEFileSystemMonitor) : OSEFileSystemMonitor :=
  paths.foldl (fun m path => m.send (removePath · path)) m

def removePath (m : OSEFileSystemMonitor) (absolutePath : Path) : OSEFileSystemMonitor :=
  if m.monitorThreadTerminated then m else (removeComponents absolutePath.componentPaths m.pause).resume

end OSEFileSystemMonitor

end Xperimentum.SystemKit
