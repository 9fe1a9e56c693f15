import TdsAdmin.Lib.Text
import TdsAdmin.Lib.Pattern
import TdsAdmin.Lib.Base64
import TdsAdmin.Lib.Json
import TdsAdmin.Lib.Shell
import TdsAdmin.Package.Scan
import TdsAdmin.Package.Upload
import TdsAdmin.Proof.Package.Steps
import TdsAdmin.Proof.Package.Encoding
import TdsAdmin.Backup.Script
import TdsAdmin.Lib.FileTree
import TdsAdmin.Lib.Markup
import TdsAdmin.Lib.Split
import TdsAdmin.Package.Directory
import TdsAdmin.Proof.Backup.Retention
import TdsAdmin.Proof.Package.Body
import TdsAdmin.Proof.Package.Complete
import TdsAdmin.Proof.Package.Directory
import TdsAdmin.Firewall.Audit
import TdsAdmin.Firewall.Grants
import TdsAdmin.Firewall.Listing
import TdsAdmin.Firewall.Provision
import TdsAdmin.Firewall.Table
import TdsAdmin.Lib.Form
import TdsAdmin.Package.Services
import TdsAdmin.Proof.Firewall.Audit
import TdsAdmin.Proof.Firewall.Calls
import TdsAdmin.Proof.Firewall.Difference
import TdsAdmin.Proof.Firewall.Listing
import TdsAdmin.Proof.Firewall.Provision
import TdsAdmin.Proof.Firewall.Update
import TdsAdmin.Proof.Package.Services
import TdsAdmin.Deploy.War
import TdsAdmin.Dns.Clean
import TdsAdmin.Lib.Datum
import TdsAdmin.Portal.Mapping
import TdsAdmin.Proof.Backup.Labels
import TdsAdmin.Proof.Backup.Removal
import TdsAdmin.Proof.Deploy.War
import TdsAdmin.Proof.Dns.Clean
import TdsAdmin.Proof.Package.Attributes
import TdsAdmin.Proof.Package.Positions
import TdsAdmin.Proof.Portal.Publish
import TdsAdmin.Proof.Package.Relayout
import TdsAdmin.Firewall.Sheet
import TdsAdmin.Lib.JsonReader
import TdsAdmin.Nagios.Files
import TdsAdmin.Proof.Dns.Batch
import TdsAdmin.Proof.Firewall.Sheet
import TdsAdmin.Proof.Nagios.Groups
import TdsAdmin.Proof.Portal.Independence
import TdsAdmin.Proof.Users.Sync
import TdsAdmin.Deploy.Provision
import TdsAdmin.Proof.Deploy.Provision
import TdsAdmin.Proof.Autoscale.Names
import TdsAdmin.Proof.Autoscale.Queue
import TdsAdmin.Proof.Dns.Registration
import TdsAdmin.Lib.Grouping
import TdsAdmin.Proof.Inventory.Groups
import TdsAdmin.Proof.Inventory.Registration
import TdsAdmin.Proof.Haproxy.Routing
import TdsAdmin.Proof.Deploy.Failure
