import Montage.CommandLine.Host
import Montage.Files.Disk

/-!
Contract: commands run on values.

A session holds a disk, what has been printed, and the answers of clock, prober
and engine. The engine may change the disk.
-/

namespace Montage.CommandLine

open Montage.Export
open Montage.Files
open Montage.Media

structure Session where
  disk : Disk
  printed : String
  now : Instant
  stamp : String
  probe : String → Except Error (Probed Float)
  engine : Command → Disk → Behaviour × Disk

namespace Session

def onDisk {β : Type} (operation : StateM Disk β) : StateM Session β := fun session =>
  let (value, disk) := operation session.disk
  (value, { session with disk := disk })

instance : Host (StateM Session) where
  readText path := onDisk (FileSystem.readText path)
  writeText path text := onDisk (FileSystem.writeText path text)
  ensureDirectory path := onDisk (FileSystem.ensureDirectory path)
  namesIn path := onDisk (FileSystem.namesIn path)
  isPresent path := onDisk (FileSystem.isPresent path)
  isDirectory path := onDisk (FileSystem.isDirectory path)
  size? path := onDisk (FileSystem.size? path)
  canonical? path := onDisk (FileSystem.canonical? path)
  workingDirectory := onDisk FileSystem.workingDirectory
  print text := fun session => ((), { session with printed := session.printed ++ text })
  now := fun session => (session.now, session)
  stamp := fun session => (session.stamp, session)
  probe path := fun session => (session.probe path, session)
  runEngine command := fun session =>
    let (behaviour, disk) := session.engine command session.disk
    (behaviour, { session with disk := disk })

end Session

end Montage.CommandLine
